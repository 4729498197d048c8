import EntityQuery.Proofs.BoundResults
import EntityQuery.Proofs.WellTyped

/-!
# The meaning of what stands in parentheses

Parentheses around an expression change nothing: the step of an enclosure is the step of what it
encloses. Only for an item of an order does this depend on the state, for the item has to be looked
up among the result variables before it is read as an expression.

* `Step.expression_enclosed`, `Step.predicate_enclosed`, `Step.query_enclosed`.
* `interpretPhrase_enclosed`: an enclosure of a statement has the outcome of the statement.
-/

namespace EntityQuery.Interpretation.Step

open Phrase (resultNames)
open Resolved (Expression)

/-! ## Forms that are read by their shape -/

/-- What is made of two values. -/
def ofPair (make : Expression → Expression → Expression) : List Expression → Step Expression
  | [left, right] => return make left right
  | values => throw (.operandCount .arithmetic values.length)

/-- The first of some values. -/
def ofFirst : List Expression → Step Expression
  | value :: _ => return value
  | [] => throw .variableArgument

/-- An operation on two operands, by the values of the list of its operands. -/
theorem pair_eq (make : Expression → Expression → Expression) (left right : Phrase.Expression) :
    (do return make (← expression left) (← expression right))
      = expressions [left, right] >>= ofPair make := by
  simp [expressions, ofPair]

/-- An expression, by the values of the list of it alone. -/
theorem first_eq (written : Phrase.Expression) :
    expression written = expressions [written] >>= ofFirst := by
  simp [expressions, ofFirst]

/-- An operation that takes two operands only looks at their values and their number. -/
theorem binary_enclosed {form : List Phrase.Expression → Phrase.Expression} {kind : BinaryForm}
    {make : Expression → Expression → Expression}
    (htwo : ∀ left right, expression (form [left, right])
      = expressions [left, right] >>= ofPair make)
    (hmany : ∀ operands, operands.length ≠ 2 →
      expression (form operands) = throw (.operandCount kind operands.length))
    {operands others : List Phrase.Expression}
    (hothers : others ∈ Phrase.expressionsEnclosures operands)
    (hall : expressions others = expressions operands) :
    expression (form others) = expression (form operands) := by
  have hlength := Phrase.expressionsEnclosures_length hothers
  by_cases hcount : operands.length = 2
  · obtain ⟨left, right, rfl⟩ := List.length_eq_two.mp hcount
    obtain ⟨left', right', rfl⟩ := List.length_eq_two.mp (hlength.trans hcount)
    rw [htwo, htwo, hall]
  · rw [hmany operands hcount, hmany others (by omega), hlength]

theorem arithmetic_miscounted (operator : ArithmeticOperator) (operands : List Phrase.Expression)
    (hcount : operands.length ≠ 2) : expression (.arithmetic operator operands)
      = throw (.operandCount .arithmetic operands.length) := by
  match operands, hcount with
  | [], _ => rfl
  | [_], _ => rfl
  | _ :: _ :: _ :: _, _ => rfl

theorem concatenation_miscounted (operands : List Phrase.Expression)
    (hcount : operands.length ≠ 2) : expression (.concatenation operands)
      = throw (.operandCount .concatenation operands.length) := by
  match operands, hcount with
  | [], _ => rfl
  | [_], _ => rfl
  | _ :: _ :: _ :: _, _ => rfl

theorem indexOfJoin_other {argument : Phrase.Expression}
    (hpath : ∀ dotted, argument ≠ .path dotted) :
    indexOfJoin argument = throw .variableArgument := by
  cases argument with
  | path dotted => exact absurd rfl (hpath dotted)
  | _ => rfl

theorem resultVariable?_other (trail : Trail) {written : Phrase.Expression}
    (hpath : ∀ dotted, written ≠ .path dotted) : resultVariable? trail written = none := by
  cases written with
  | path dotted => exact absurd rfl (hpath dotted)
  | _ => rfl

/-- A name that is none of the result variables is no reference to one. -/
theorem resultVariable?_unnamed {trail : Trail} {names : List String}
    (hnames : ∀ result ∈ trail.results, result.aliasName ∈ names) {written : Phrase.Expression}
    (hwritten : written.isOneOf names = false) : resultVariable? trail written = none := by
  cases written with
  | path dotted =>
    simp only [resultVariable?]
    split
    · rename_i hsimple
      rw [Option.map_eq_none_iff]
      cases hfound : trail.selection? dotted.first with
      | none => rfl
      | some result =>
        obtain ⟨hresult, hname⟩ := Trail.selection?_some hfound
        have hmem := hnames result hresult
        rw [hname] at hmem
        simp [Phrase.Expression.isOneOf, hsimple, hmem] at hwritten
    · rfl
  | _ => rfl

theorem indexOfJoin_enclosed {name : String} {generic : Bool} {argument other : Phrase.Expression}
    (hindex : (if generic then none else CollectionFunction.ofName? name) = some .index)
    (hplain : Phrase.indexesJoin name generic [argument] = false)
    (hother : other ∈ argument.enclosures) : indexOfJoin other = indexOfJoin argument := by
  rw [indexOfJoin_other (Phrase.enclosures_ne_path hother), indexOfJoin_other]
  rintro dotted rfl
  cases generic with
  | true => cases hindex
  | false =>
    have hfunction : CollectionFunction.ofName? name = some .index := hindex
    simp [Phrase.indexesJoin, hfunction] at hplain

/-- A call with as many arguments that mean the same. A single argument is looked at as well. -/
theorem call_enclosed {name : String} {generic : Bool} (distinct star : Bool)
    {arguments others : List Phrase.Expression}
    (hplain : Phrase.indexesJoin name generic arguments = false)
    (hothers : others ∈ Phrase.expressionsEnclosures arguments)
    (hall : expressions others = expressions arguments) :
    expression (.call name generic distinct star others)
      = expression (.call name generic distinct star arguments) := by
  have hlength := Phrase.expressionsEnclosures_length hothers
  simp only [expression]
  split
  · rename_i function hfunction
    congr 1
    funext _
    by_cases hsingle : arguments.length = 1
    · obtain ⟨argument, rfl⟩ := List.length_eq_one_iff.mp hsingle
      obtain ⟨other, rfl⟩ := List.length_eq_one_iff.mp (hlength.trans hsingle)
      dsimp only
      split
      · rename_i hindex
        rw [hindex] at hfunction
        refine indexOfJoin_enclosed hfunction hplain ?_
        simpa [Phrase.expressionsEnclosures] using hothers
      · rw [first_eq other, hall, ← first_eq argument]
    · have hother : others.length ≠ 1 := hlength ▸ hsingle
      split
      · exact absurd rfl hother
      · split
        · exact absurd rfl hsingle
        · rw [hlength]
  · rw [hall]

/-- Only the variables of its arguments matter for what an instantiation makes. -/
theorem instantiationTarget_enclosed (target : Phrase.Target)
    {items others : List Phrase.SelectItem} (h : others ∈ Phrase.selectItemsEnclosures items) :
    instantiationTarget target others = instantiationTarget target items := by
  cases target with
  | map => simp only [instantiationTarget, firstUnnamed?_eq, Phrase.selectItemsEnclosures_aliases h]
  | _ => rfl

theorem membership_other (tested : Phrase.Expression) {operand : Phrase.Expression}
    (hoperand : ∀ nested, operand ≠ .subquery nested) (negated : Bool) :
    predicate (.inSubquery tested operand negated)
      = (do
          let _ ← expression tested
          throw .membershipOperand) := by
  cases operand with
  | subquery nested => exact absurd rfl (hoperand nested)
  | _ => rfl

theorem existence_other {operand : Phrase.Expression}
    (hoperand : ∀ nested, operand ≠ .subquery nested) (negated : Bool) :
    predicate (.existence operand negated) = throw .existenceOperand := by
  cases operand with
  | subquery nested => exact absurd rfl (hoperand nested)
  | _ => rfl

/-! ## Orders -/

/-- The result variables of the current scope are among some names. -/
def Names (names : List String) (context : Context) : Prop :=
  ∀ result ∈ context.trail.results, result.aliasName ∈ names

theorem sortItem_enclosed {schema : Schema} {before : Context} {names : List String}
    (hnames : Names names before) {written other : Phrase.Expression}
    (hwritten : written.isOneOf names = false) (hother : other ∈ written.enclosures)
    (hsame : expression other = expression written) (collation ordering : Option String) :
    (sortItem (.mk other collation ordering)).run' schema before
      = (sortItem (.mk written collation ordering)).run' schema before := by
  simp only [sortItem]
  rw [run_get_bind, run_get_bind, resultVariable?_other _ (Phrase.enclosures_ne_path hother),
    resultVariable?_unnamed hnames hwritten, hsame]

theorem sortItem_binds {schema : Schema} {before : Context} (written : Phrase.SortItem) :
    Elemental schema before (sortItem written) := by
  obtain ⟨written, collation, ordering⟩ := written
  exact (sortItem_moves (freeBinding schema) (.mk written collation ordering)
    (written.meets treating_always)).ends

/-- Steps with the same first part may be compared where that part has ended. -/
theorem run_bind_congr {α β : Type} {schema : Schema} {before : Context} {first : Step α}
    {second second' : α → Step β}
    (h : ∀ value between, first.run' schema before = (.ok value, between) →
      (second value).run' schema between = (second' value).run' schema between) :
    (first >>= second).run' schema before = (first >>= second').run' schema before := by
  rw [run_bind, run_bind]
  cases hfirst : first.run' schema before with
  | mk outcome between =>
    cases outcome with
    | error fault => rfl
    | ok value => exact h value between hfirst

/-- Steps on levels of their own may be compared where the level has been opened. -/
theorem onLevel_congr {α : Type} {step step' : Step α}
    (h : ∀ (schema : Schema) (before : Context),
      step.run' schema before.openLevel = step'.run' schema before.openLevel) :
    onLevel step = onLevel step' := by
  funext schema before
  change (onLevel step).run' schema before = (onLevel step').run' schema before
  rw [run_onLevel, run_onLevel, h schema before]

/-- An order is read where the result variables are those of the select clause. -/
theorem query_ordered {select : Option Phrase.SelectClause} {items others : List Phrase.SortItem}
    (h : ∀ schema before, Names (resultNames select) before →
      (sortItems others).run' schema before = (sortItems items).run' schema before)
    (written : List Phrase.Space) (condition : Option Phrase.Predicate)
    (limit offset : Option Phrase.Expression) (nested : Bool) :
    query (.mk select written condition (some others) limit offset) nested
      = query (.mk select written condition (some items) limit offset) nested := by
  simp only [query, order, Option.isSome_some]
  refine congrArg _ (funext fun _ => congrArg _ (funext fun _ => congrArg (· >>= _) ?_))
  refine onLevel_congr fun schema before => ?_
  refine run_bind_congr fun _ spaced hspaces => run_bind_congr fun _ selected hselect =>
    run_bind_congr fun _ restricted hcondition => ?_
  have hnames : Names (resultNames select) restricted := by
    intro result hresult
    rw [(restriction_binds condition _ _ hcondition).results] at hresult
    rcases selectClause_results select _ _ hselect result hresult with hold | hname
    · rw [(spaces_bind written _ _ hspaces).results] at hold
      cases hold
    · exact hname
  simp only [run_bind]
  rw [h schema restricted hnames]

/-! ## Trees -/

mutual

theorem expression_enclosed : ∀ written : Phrase.Expression,
    ∀ other ∈ written.enclosures, expression other = expression written
  | .literal token => by simp [Phrase.Expression.enclosures, expression]
  | .parameter written => by simp [Phrase.Expression.enclosures, expression]
  | .path dotted => by simp [Phrase.Expression.enclosures, expression]
  | .treated base entity remainder => by simp [Phrase.Expression.enclosures, expression]
  | .mapFunction function argument => by simp [Phrase.Expression.enclosures, expression]
  | .indexed base index remainder => by
    simp only [Phrase.Expression.enclosures, List.forall_mem_cons, List.forall_mem_map]
    refine ⟨rfl, fun other hother => ?_⟩
    simp only [expression, expression_enclosed index other hother]
  | .arithmetic operator operands => by
    simp only [Phrase.Expression.enclosures, List.forall_mem_cons, List.forall_mem_map]
    refine ⟨rfl, fun others hothers => ?_⟩
    exact binary_enclosed (fun _ _ => by rw [expression, pair_eq]) (arithmetic_miscounted operator)
      hothers (expressions_enclosed operands others hothers)
  | .concatenation operands => by
    simp only [Phrase.Expression.enclosures, List.forall_mem_cons, List.forall_mem_map]
    refine ⟨rfl, fun others hothers => ?_⟩
    exact binary_enclosed (fun _ _ => by rw [expression, pair_eq]) concatenation_miscounted
      hothers (expressions_enclosed operands others hothers)
  | .unary sign operand => by
    simp only [Phrase.Expression.enclosures, List.forall_mem_cons, List.forall_mem_map]
    refine ⟨rfl, fun other hother => ?_⟩
    simp only [expression, expression_enclosed operand other hother]
  | .grouped inner => by
    simp only [Phrase.Expression.enclosures, List.forall_mem_cons, List.forall_mem_map]
    refine ⟨rfl, fun other hother => ?_⟩
    simp only [expression, expression_enclosed inner other hother]
  | .call name generic distinct star arguments => by
    simp only [Phrase.Expression.enclosures, List.forall_mem_cons]
    refine ⟨rfl, ?_⟩
    split
    · exact fun other hother => absurd hother List.not_mem_nil
    · rename_i hplain
      simp only [List.forall_mem_map]
      exact fun others hothers => call_enclosed distinct star (by simpa using hplain) hothers
        (expressions_enclosed arguments others hothers)
  | .simpleCase operand whens otherwise => by
    simp only [Phrase.Expression.enclosures, List.forall_mem_cons, List.forall_mem_append,
      List.forall_mem_map]
    refine ⟨rfl, ⟨fun other hother => ?_, fun others hothers => ?_⟩, fun other hother => ?_⟩
    · simp only [expression, expression_enclosed operand other hother]
    · simp only [expression, simpleWhens_enclosed whens others hothers]
    · simp only [expression, optional_enclosed otherwise other hother]
  | .searchedCase whens otherwise => by
    simp only [Phrase.Expression.enclosures, List.forall_mem_cons, List.forall_mem_append,
      List.forall_mem_map]
    refine ⟨rfl, fun others hothers => ?_, fun other hother => ?_⟩
    · simp only [expression, searchedWhens_enclosed whens others hothers]
    · simp only [expression, optional_enclosed otherwise other hother]
  | .subquery nested => by
    simp only [Phrase.Expression.enclosures, List.forall_mem_cons, List.forall_mem_map]
    refine ⟨rfl, fun other hother => ?_⟩
    simp only [expression, query_enclosed nested other hother]

theorem expressions_enclosed : ∀ written : List Phrase.Expression,
    ∀ others ∈ Phrase.expressionsEnclosures written, expressions others = expressions written
  | [] => by simp [Phrase.expressionsEnclosures]
  | first :: rest => by
    simp only [Phrase.expressionsEnclosures, List.forall_mem_append, List.forall_mem_map]
    refine ⟨fun other hother => ?_, fun others hothers => ?_⟩
    · simp only [expressions, expression_enclosed first other hother]
    · simp only [expressions, expressions_enclosed rest others hothers]

theorem optional_enclosed : ∀ written : Option Phrase.Expression,
    ∀ other ∈ Phrase.optionalEnclosures written, optional other = optional written
  | none => by simp [Phrase.optionalEnclosures]
  | some written => by
    simp only [Phrase.optionalEnclosures, List.forall_mem_map]
    intro other hother
    simp only [optional, expression_enclosed written other hother]

theorem simpleWhen_enclosed : ∀ written : Phrase.SimpleWhen,
    ∀ other ∈ written.enclosures, simpleWhen other = simpleWhen written
  | .mk value result => by
    simp only [Phrase.SimpleWhen.enclosures, List.forall_mem_append, List.forall_mem_map]
    refine ⟨fun other hother => ?_, fun other hother => ?_⟩
    · simp only [simpleWhen, expression_enclosed value other hother]
    · simp only [simpleWhen, expression_enclosed result other hother]

theorem simpleWhens_enclosed : ∀ written : List Phrase.SimpleWhen,
    ∀ others ∈ Phrase.simpleWhensEnclosures written, simpleWhens others = simpleWhens written
  | [] => by simp [Phrase.simpleWhensEnclosures]
  | first :: rest => by
    simp only [Phrase.simpleWhensEnclosures, List.forall_mem_append, List.forall_mem_map]
    refine ⟨fun other hother => ?_, fun others hothers => ?_⟩
    · simp only [simpleWhens, simpleWhen_enclosed first other hother]
    · simp only [simpleWhens, simpleWhens_enclosed rest others hothers]

theorem searchedWhen_enclosed : ∀ written : Phrase.SearchedWhen,
    ∀ other ∈ written.enclosures, searchedWhen other = searchedWhen written
  | .mk condition result => by
    simp only [Phrase.SearchedWhen.enclosures, List.forall_mem_append, List.forall_mem_map]
    refine ⟨fun other hother => ?_, fun other hother => ?_⟩
    · simp only [searchedWhen, predicate_enclosed condition other hother]
    · simp only [searchedWhen, expression_enclosed result other hother]

theorem searchedWhens_enclosed : ∀ written : List Phrase.SearchedWhen,
    ∀ others ∈ Phrase.searchedWhensEnclosures written,
      searchedWhens others = searchedWhens written
  | [] => by simp [Phrase.searchedWhensEnclosures]
  | first :: rest => by
    simp only [Phrase.searchedWhensEnclosures, List.forall_mem_append, List.forall_mem_map]
    refine ⟨fun other hother => ?_, fun others hothers => ?_⟩
    · simp only [searchedWhens, searchedWhen_enclosed first other hother]
    · simp only [searchedWhens, searchedWhens_enclosed rest others hothers]

theorem predicate_enclosed : ∀ written : Phrase.Predicate,
    ∀ other ∈ written.enclosures, predicate other = predicate written
  | .and left right => by
    simp only [Phrase.Predicate.enclosures, List.forall_mem_append, List.forall_mem_map]
    refine ⟨fun other hother => ?_, fun other hother => ?_⟩
    · simp only [predicate, predicate_enclosed left other hother]
    · simp only [predicate, predicate_enclosed right other hother]
  | .or left right => by
    simp only [Phrase.Predicate.enclosures, List.forall_mem_append, List.forall_mem_map]
    refine ⟨fun other hother => ?_, fun other hother => ?_⟩
    · simp only [predicate, predicate_enclosed left other hother]
    · simp only [predicate, predicate_enclosed right other hother]
  | .not inner => by
    simp only [Phrase.Predicate.enclosures, List.forall_mem_map]
    intro other hother
    simp only [predicate, predicate_enclosed inner other hother]
  | .grouped inner => by
    simp only [Phrase.Predicate.enclosures, List.forall_mem_map]
    intro other hother
    simp only [predicate, predicate_enclosed inner other hother]
  | .comparison operator left right => by
    simp only [Phrase.Predicate.enclosures, List.forall_mem_append, List.forall_mem_map]
    refine ⟨fun other hother => ?_, fun other hother => ?_⟩
    · simp only [predicate, expression_enclosed left other hother]
    · simp only [predicate, expression_enclosed right other hother]
  | .between tested lower upper negated => by
    simp only [Phrase.Predicate.enclosures, List.forall_mem_append, List.forall_mem_map]
    refine ⟨⟨fun other hother => ?_, fun other hother => ?_⟩, fun other hother => ?_⟩
    · simp only [predicate, expression_enclosed tested other hother]
    · simp only [predicate, expression_enclosed lower other hother]
    · simp only [predicate, expression_enclosed upper other hother]
  | .like matched pattern escape negated => by
    simp only [Phrase.Predicate.enclosures, List.forall_mem_append, List.forall_mem_map]
    refine ⟨⟨fun other hother => ?_, fun other hother => ?_⟩, fun other hother => ?_⟩
    · simp only [predicate, expression_enclosed matched other hother]
    · simp only [predicate, expression_enclosed pattern other hother]
    · simp only [predicate, optional_enclosed escape other hother]
  | .inList tested items negated => by
    simp only [Phrase.Predicate.enclosures, List.forall_mem_append, List.forall_mem_map]
    refine ⟨fun other hother => ?_, fun others hothers => ?_⟩
    · simp only [predicate, expression_enclosed tested other hother]
    · simp only [predicate, expressions_enclosed items others hothers]
  | .inSubquery tested operand negated => by
    cases operand with
    | subquery nested =>
      simp only [Phrase.Predicate.enclosures, List.forall_mem_append, List.forall_mem_map]
      refine ⟨fun other hother => ?_, fun other hother => ?_⟩
      · simp only [predicate, expression_enclosed tested other hother]
      · simp only [predicate, query_enclosed nested other hother]
    | _ =>
      simp only [Phrase.Predicate.enclosures, List.forall_mem_append, List.forall_mem_map]
      refine ⟨fun other hother => ?_, fun other hother => ?_⟩
      · simp only [predicate, expression_enclosed tested other hother]
      · rw [membership_other tested (Phrase.enclosures_ne_subquery (by simp) hother),
          membership_other tested (by simp)]
  | .isNull tested negated => by
    simp only [Phrase.Predicate.enclosures, List.forall_mem_map]
    intro other hother
    simp only [predicate, expression_enclosed tested other hother]
  | .isEmpty tested negated => by
    simp only [Phrase.Predicate.enclosures, List.forall_mem_map]
    intro other hother
    simp only [predicate, expression_enclosed tested other hother]
  | .memberOf element collection negated => by
    simp only [Phrase.Predicate.enclosures, List.forall_mem_append, List.forall_mem_map]
    refine ⟨fun other hother => ?_, fun other hother => ?_⟩
    · simp only [predicate, expression_enclosed element other hother]
    · simp only [predicate, expression_enclosed collection other hother]
  | .existence operand negated => by
    cases operand with
    | subquery nested =>
      simp only [Phrase.Predicate.enclosures, List.forall_mem_map]
      intro other hother
      simp only [predicate, query_enclosed nested other hother]
    | _ =>
      simp only [Phrase.Predicate.enclosures, List.forall_mem_map]
      intro other hother
      rw [existence_other (Phrase.enclosures_ne_subquery (by simp) hother),
        existence_other (by simp)]

theorem restriction_enclosed : ∀ written : Option Phrase.Predicate,
    ∀ other ∈ Phrase.restrictionEnclosures written, restriction other = restriction written
  | none => by simp [Phrase.restrictionEnclosures]
  | some written => by
    simp only [Phrase.restrictionEnclosures, List.forall_mem_map]
    intro other hother
    simp only [restriction, predicate_enclosed written other hother]

theorem selectExpression_enclosed : ∀ written : Phrase.SelectExpression,
    ∀ other ∈ written.enclosures, selectExpression other = selectExpression written
  | .instantiation target items => by
    simp only [Phrase.SelectExpression.enclosures, List.forall_mem_map]
    intro others hothers
    simp only [selectExpression, instantiationTarget_enclosed target hothers,
      arguments_enclosed items others hothers]
  | .object name => by simp [Phrase.SelectExpression.enclosures]
  | .expression written => by
    simp only [Phrase.SelectExpression.enclosures, List.forall_mem_map]
    intro other hother
    simp only [selectExpression, expression_enclosed written other hother]

theorem arguments_enclosed : ∀ written : List Phrase.SelectItem,
    ∀ others ∈ Phrase.selectItemsEnclosures written, arguments others = arguments written
  | [] => by simp [Phrase.selectItemsEnclosures]
  | .mk written alias? :: rest => by
    simp only [Phrase.selectItemsEnclosures, List.forall_mem_append, List.forall_mem_map]
    refine ⟨fun other hother => ?_, fun others hothers => ?_⟩
    · simp only [arguments, selectExpression_enclosed written other hother]
    · simp only [arguments, arguments_enclosed rest others hothers]

theorem selections_enclosed : ∀ written : List Phrase.SelectItem,
    ∀ others ∈ Phrase.selectItemsEnclosures written, selections others = selections written
  | [] => by simp [Phrase.selectItemsEnclosures]
  | .mk written alias? :: rest => by
    simp only [Phrase.selectItemsEnclosures, List.forall_mem_append, List.forall_mem_map]
    refine ⟨fun other hother => funext fun position => ?_, fun others hothers =>
      funext fun position => ?_⟩
    · simp only [selections, selectExpression_enclosed written other hother]
    · simp only [selections, selections_enclosed rest others hothers]

theorem selectClause_enclosed : ∀ written : Option Phrase.SelectClause,
    ∀ other ∈ Phrase.selectClauseEnclosures written, selectClause other = selectClause written
  | none => by simp [Phrase.selectClauseEnclosures]
  | some (.mk distinct items) => by
    simp only [Phrase.selectClauseEnclosures, List.forall_mem_map]
    intro others hothers
    simp only [selectClause, selections_enclosed items others hothers]

theorem join_enclosed : ∀ written : Phrase.Join,
    ∀ other ∈ written.enclosures, ∀ id, join id other = join id written
  | .cross root => by simp [Phrase.Join.enclosures]
  | .collection path alias? => by simp [Phrase.Join.enclosures]
  | .qualified type fetch target alias? none => by
    simp [Phrase.Join.enclosures, Phrase.restrictionEnclosures]
  | .qualified type fetch target alias? (some condition) => by
    simp only [Phrase.Join.enclosures, Phrase.restrictionEnclosures, List.forall_mem_map]
    intro other hother id
    simp only [join, predicate_enclosed condition other hother]

theorem joins_enclosed : ∀ written : List Phrase.Join,
    ∀ others ∈ Phrase.joinsEnclosures written, ∀ id, joins id others = joins id written
  | [] => by simp [Phrase.joinsEnclosures]
  | first :: rest => by
    simp only [Phrase.joinsEnclosures, List.forall_mem_append, List.forall_mem_map]
    refine ⟨fun other hother id => ?_, fun others hothers id => ?_⟩
    · simp only [joins, join_enclosed first other hother]
    · simp only [joins, joins_enclosed rest others hothers]

theorem space_enclosed : ∀ written : Phrase.Space,
    ∀ other ∈ written.enclosures, space other = space written
  | .mk root hanging => by
    simp only [Phrase.Space.enclosures, List.forall_mem_map]
    intro others hothers
    simp only [space, joins_enclosed hanging others hothers]

theorem spaces_enclosed : ∀ written : List Phrase.Space,
    ∀ others ∈ Phrase.spacesEnclosures written, spaces others = spaces written
  | [] => by simp [Phrase.spacesEnclosures]
  | first :: rest => by
    simp only [Phrase.spacesEnclosures, List.forall_mem_append, List.forall_mem_map]
    refine ⟨fun other hother => ?_, fun others hothers => ?_⟩
    · simp only [spaces, space_enclosed first other hother]
    · simp only [spaces, spaces_enclosed rest others hothers]

/-- The items are compared where the result variables are among the names. -/
theorem sortItems_enclosed (names : List String) : ∀ written : List Phrase.SortItem,
    ∀ others ∈ Phrase.sortItemsEnclosures names written, ∀ schema before, Names names before →
      (sortItems others).run' schema before = (sortItems written).run' schema before
  | [] => by simp [Phrase.sortItemsEnclosures]
  | .mk written collation ordering :: rest => by
    simp only [Phrase.sortItemsEnclosures, List.forall_mem_append, List.forall_mem_map]
    refine ⟨fun others hothers schema before hnames => ?_,
      fun others hothers schema before hnames => ?_⟩
    · split at hothers
      · exact absurd hothers List.not_mem_nil
      · rename_i hplain
        obtain ⟨other, hother, rfl⟩ := List.mem_map.mp hothers
        simp only [sortItems]
        rw [run_bind, run_bind, sortItem_enclosed hnames (by simpa using hplain) hother
          (expression_enclosed written other hother) collation ordering]
    · simp only [sortItems]
      refine run_bind_congr fun value between hvalue => ?_
      have hnames' : Names names between := by
        intro result hresult
        rw [(sortItem_binds _ _ _ hvalue).results] at hresult
        exact hnames result hresult
      rw [run_bind, run_bind, sortItems_enclosed names rest others hothers schema between hnames']

theorem query_enclosed : ∀ written : Phrase.Query,
    ∀ other ∈ written.enclosures, query other = query written
  | .mk select written condition ordering limit offset => by
    simp only [Phrase.Query.enclosures, List.forall_mem_append, List.forall_mem_map]
    refine ⟨⟨⟨⟨⟨fun other hother => ?_, fun others hothers => ?_⟩, fun other hother => ?_⟩,
      fun other hother => ?_⟩, fun other hother => ?_⟩, fun other hother => ?_⟩
    · funext nested
      simp only [query, selectClause_enclosed select other hother]
    · funext nested
      simp only [query, spaces_enclosed written others hothers]
    · funext nested
      simp only [query, restriction_enclosed condition other hother]
    · cases ordering with
      | none => exact absurd hother List.not_mem_nil
      | some items =>
        obtain ⟨others, hothers, rfl⟩ := List.mem_map.mp hother
        funext nested
        exact query_ordered (sortItems_enclosed (resultNames select) items others hothers)
          written condition limit offset nested
    · funext nested
      simp only [query, optional_enclosed limit other hother,
        Phrase.optionalEnclosures_isSome hother]
    · funext nested
      simp only [query, optional_enclosed offset other hother,
        Phrase.optionalEnclosures_isSome hother]

end

/-! ## Statements -/

theorem assignments_enclosed : ∀ written : List Phrase.Assignment,
    ∀ others ∈ Phrase.assignmentsEnclosures written,
      others.mapM assignment = written.mapM assignment
  | [] => by simp [Phrase.assignmentsEnclosures]
  | ⟨path, value⟩ :: rest => by
    simp only [Phrase.assignmentsEnclosures, List.forall_mem_append, List.forall_mem_map]
    refine ⟨fun other hother => ?_, fun others hothers => ?_⟩
    · simp only [List.mapM_cons, assignment, expression_enclosed value other hother]
    · simp only [List.mapM_cons, assignments_enclosed rest others hothers]

theorem bulkRestriction_enclosed : ∀ written : Option Phrase.Predicate,
    ∀ other ∈ Phrase.restrictionEnclosures written, bulkRestriction other = bulkRestriction written
  | none => by simp [Phrase.restrictionEnclosures]
  | some written => by
    simp only [Phrase.restrictionEnclosures, List.forall_mem_map]
    intro other hother
    simp only [bulkRestriction, predicate_enclosed written other hother]

theorem statement_enclosed (written : Phrase.Statement) :
    ∀ other ∈ written.enclosures, statement other = statement written := by
  cases written with
  | select written =>
    simp only [Phrase.Statement.enclosures, List.forall_mem_map]
    intro other hother
    simp only [statement, query_enclosed written other hother]
  | update target assignments condition =>
    simp only [Phrase.Statement.enclosures, List.forall_mem_append, List.forall_mem_map]
    refine ⟨fun others hothers => ?_, fun other hother => ?_⟩
    · simp only [statement, update, assignments_enclosed assignments others hothers]
    · simp only [statement, update, bulkRestriction_enclosed condition other hother]
  | delete target condition =>
    simp only [Phrase.Statement.enclosures, List.forall_mem_map]
    intro other hother
    simp only [statement, delete, bulkRestriction_enclosed condition other hother]
  | insert target stateFields written =>
    simp only [Phrase.Statement.enclosures, List.forall_mem_map]
    intro other hother
    simp only [statement, insert, query_enclosed written other hother]

end EntityQuery.Interpretation.Step

namespace EntityQuery

open Interpretation

/-- Parentheses around an expression are transparent: a statement and its enclosures have the same
meaning or fail for the same reason. -/
theorem interpretPhrase_enclosed {phrase other : Phrase.Statement} (h : other ∈ phrase.enclosures)
    (schema : Schema) : interpretPhrase other schema = interpretPhrase phrase schema := by
  unfold interpretPhrase
  rw [Step.statement_enclosed phrase other h]

/-- The labels of all shelves as `n`, in an order. -/
def shelvesBy (written : Phrase.Expression) : Phrase.Statement :=
  .select (.mk (some (.mk false [.mk (.expression (.path ⟨["s", "label"]⟩)) (some "n")]))
    [.mk ⟨⟨["Shelf"]⟩, some "s"⟩ []] none (some [.mk written none none]) none none)

theorem interpretPhrase_enclosed_label :
    shelvesBy (.grouped (.path ⟨["s", "label"]⟩)) ∈ (shelvesBy (.path ⟨["s", "label"]⟩)).enclosures
      ∧ interpretPhrase (shelvesBy (.grouped (.path ⟨["s", "label"]⟩))) shelving.schema
        = interpretPhrase (shelvesBy (.path ⟨["s", "label"]⟩)) shelving.schema := by
  have henclosed : shelvesBy (.grouped (.path ⟨["s", "label"]⟩))
      ∈ (shelvesBy (.path ⟨["s", "label"]⟩)).enclosures := by
    simp [shelvesBy, Phrase.Statement.enclosures, Phrase.Query.enclosures, Phrase.orderEnclosures,
      Phrase.sortItemsEnclosures, Phrase.Expression.isOneOf, Phrase.Expression.enclosures,
      DottedName.isSimple, DottedName.length]
  exact ⟨henclosed, interpretPhrase_enclosed henclosed shelving.schema⟩

/-- A result variable in parentheses is no result variable any more. -/
theorem interpretPhrase_enclosed_result :
    (interpretPhrase (shelvesBy (.path ⟨["n"]⟩)) shelving.schema).isOk = true
      ∧ interpretPhrase (shelvesBy (.grouped (.path ⟨["n"]⟩))) shelving.schema
        = .error (.uninterpretedPath ⟨["n"]⟩) :=
  ⟨rfl, rfl⟩

end EntityQuery

import EntityQuery.Proofs.Operands
import EntityQuery.Proofs.QuietSteps

/-!
# The style of parameters

All parameters of a statement are named, or all of them are positional and counted from one. The
first parameter that is met fixes the style, on whatever level it is met, and no step takes it back.
So it is enough that every parameter that is written is met, which is shown form by form: a step
that does not fail notes all operands of the phrase that it was written for.

* `Step.Notes`: a step notes the parameters among operands.
* `Step.expression_notes`, `Step.predicate_notes`, `Step.query_notes`: form by form.
* `Phrase.OneStyle`, `interpretPhrase_oneStyle`: one style for a statement.
-/

namespace EntityQuery

namespace Phrase

/-- The parameters among operands. -/
def parameters (operands : List Operand) : List Parameter :=
  operands.filterMap fun operand =>
    match operand with
    | .literal _ => none
    | .parameter written => some written

theorem mem_parameters {operands : List Operand} {written : Parameter} :
    written ∈ parameters operands ↔ .parameter written ∈ operands := by
  rw [parameters, List.mem_filterMap]
  constructor
  · rintro ⟨operand, hmem, hoperand⟩
    cases operand with
    | literal text => cases hoperand
    | parameter other =>
      cases hoperand
      exact hmem
  · exact fun hmem => ⟨_, hmem, rfl⟩

/-- All parameters are named, or all of them are positional with positions from one on. -/
def OneStyle (parameters : List Parameter) : Prop :=
  (∀ written ∈ parameters, ∃ name, written = .named name)
    ∨ ∀ written ∈ parameters, ∃ position, written = .positional position ∧ 1 ≤ position

end Phrase

namespace Interpretation

/-- The parameter may be used, and the style of parameters is fixed to its style. -/
def Context.Fixes (context : Context) (written : Phrase.Parameter) : Prop :=
  written ≠ .positional 0 ∧ context.style? = some (.ofParameter written)

/-- A style that was fixed stays fixed. -/
def Context.KeepsStyle (before after : Context) : Prop :=
  ∀ style, before.style? = some style → after.style? = some style

/-- Parameters whose style is fixed in one state are of one style. -/
theorem Context.oneStyle_of_fixes {context : Context} {parameters : List Phrase.Parameter}
    (h : ∀ written ∈ parameters, context.Fixes written) : Phrase.OneStyle parameters := by
  cases hstyle : context.style? with
  | none =>
    refine .inl fun written hmem => ?_
    have hfixes := (h written hmem).2
    rw [hstyle] at hfixes
    cases hfixes
  | some style =>
    have hsame : ∀ written ∈ parameters, .ofParameter written = style := by
      intro written hmem
      have hfixes := (h written hmem).2
      rw [hstyle] at hfixes
      cases hfixes
      rfl
    cases style with
    | named =>
      refine .inl fun written hmem => ?_
      cases written with
      | named name => exact ⟨name, rfl⟩
      | positional position => cases hsame _ hmem
    | positional =>
      refine .inr fun written hmem => ?_
      cases written with
      | named name => cases hsame _ hmem
      | positional position =>
        refine ⟨position, rfl, Nat.one_le_iff_ne_zero.mpr fun hzero => (h _ hmem).1 ?_⟩
        rw [hzero]

namespace Step

/-- Where the step does not fail, it keeps the style of parameters that was fixed, and this is the
style of every parameter among the operands. -/
def Notes {α : Type} (operands : List Operand) (step : Step α) : Prop :=
  ∀ schema before, Ends schema before step fun _ after =>
    before.KeepsStyle after ∧ ∀ written, .parameter written ∈ operands → after.Fixes written

variable {α β : Type} {operands more : List Operand}

/-! ## Steps put together -/

theorem notes_bind {first : Step α} {second : α → Step β} (hfirst : Notes operands first)
    (hsecond : ∀ value, Notes more (second value)) :
    Notes (operands ++ more) (first >>= second) := by
  refine fun schema before => ends_bind (hfirst schema before) ?_
  rintro value between ⟨hkept, hfixes⟩
  refine ends_mono (hsecond value schema between) ?_
  rintro result after ⟨hlater, hmore⟩
  refine ⟨fun style h => hlater style (hkept style h), fun written hmem => ?_⟩
  rcases List.mem_append.mp hmem with hmem | hmem
  · exact ⟨(hfixes written hmem).1, hlater _ (hfixes written hmem).2⟩
  · exact hmore written hmem

theorem notes_throw (fault : Fault) : Notes operands (throw fault : Step α) :=
  fun _ _ => ends_throw fault

/-- A change that leaves the style. -/
theorem notes_modify {change : Context → Context}
    (h : ∀ context, (change context).style? = context.style?) : Notes [] (modify change) :=
  fun _ before => ends_modify ⟨fun _ hstyle => (h before).trans hstyle, fun _ hmem => by cases hmem⟩

/-- A quiet step notes nothing. -/
theorem notes_quiet {step : Step α} (h : Quiet step) : Notes [] step :=
  fun _ _ => ends_mono h.ends fun _ _ hnotes =>
    ⟨fun _ hstyle => hnotes.style?.trans hstyle, fun _ hmem => by cases hmem⟩

/-- A quiet step before others. -/
theorem notes_after {first : Step α} {second : α → Step β} (hfirst : Quiet first)
    (hsecond : ∀ value, Notes operands (second value)) : Notes operands (first >>= second) :=
  notes_bind (notes_quiet hfirst) hsecond

/-- A quiet step after others. -/
theorem notes_then {first : Step α} {second : α → Step β} (hfirst : Notes operands first)
    (hsecond : ∀ value, Quiet (second value)) : Notes operands (first >>= second) := by
  have hboth := notes_bind hfirst fun value => notes_quiet (hsecond value)
  rwa [List.append_nil] at hboth

theorem notes_return {first : Step α} {combine : α → β} (hfirst : Notes operands first) :
    Notes operands (do
      let value ← first
      return combine value) :=
  notes_then hfirst fun _ => quiet_pure _

theorem notes_get_bind {second : Context → Step β} (h : ∀ context, Notes operands (second context)) :
    Notes operands (get >>= second) :=
  fun schema before => h before schema before

theorem notes_under {resolver : Resolver} {step : Step α} (h : Notes operands step) :
    Notes operands (under resolver step) :=
  fun schema before => ends_under (h schema (before.pushResolver resolver))

theorem notes_onLevel {step : Step α} (h : Notes operands step) :
    Notes operands (onLevel step) :=
  fun schema before => ends_onLevel (ends_mono (h schema before.openLevel)
    fun _ _ hnotes _ _ => hnotes)

theorem notes_mapM {items : List β} {visit : β → Step α} {written : β → List Operand}
    (h : ∀ item, Notes (written item) (visit item)) :
    Notes (items.flatMap written) (items.mapM visit) := by
  induction items with
  | nil =>
    rw [List.mapM_nil]
    exact notes_quiet (quiet_pure _)
  | cons item items ih =>
    rw [List.mapM_cons, List.flatMap_cons]
    exact notes_bind (h item) fun _ => notes_return ih

/-! ## Steps that note or advise -/

theorem parameter_notes (written : Phrase.Parameter) :
    Notes [.parameter written] (parameter written) := by
  refine notes_then (fun schema before => ends_change fun after hnote => ?_) fun _ => quiet_pure _
  unfold Context.noteParameter at hnote
  dsimp only at hnote
  split at hnote
  · cases hnote
  rename_i hposition
  split at hnote
  · cases hnote
  rename_i hfixed
  cases hnote
  refine ⟨fun style hstyle => ?_, fun other hmem => ?_⟩
  · rw [hstyle] at hfixed
    have hsame : style = .ofParameter written := by simpa using hfixed
    rw [hsame]
  · cases List.mem_singleton.mp hmem
    exact ⟨hposition, rfl⟩

theorem announceCollectionFunction_notes (function : CollectionFunction) :
    Notes [] (announceCollectionFunction function) := by
  unfold announceCollectionFunction
  split
  · exact notes_after (quiet_comply _ _) fun _ => notes_modify fun _ => rfl
  · exact notes_quiet (quiet_pure _)

theorem announceCall_notes (name : String) (generic standard : Bool) :
    Notes [] (announceCall name generic standard) := by
  unfold announceCall
  split
  · exact notes_after (quiet_comply _ _) fun _ => notes_modify fun _ => rfl
  · exact notes_quiet (quiet_pure _)

theorem implicitSelection_notes : Notes [] implicitSelection := by
  refine notes_get_bind fun context => ?_
  split
  · exact notes_throw _
  · refine notes_then (notes_modify fun _ => rfl) fun _ => ?_
    exact quiet_bind (quiet_comply _ _) fun _ =>
      quiet_bind (bindSelection_quiet _ _) fun _ => quiet_pure _

theorem literal_notes (token : Phrase.Literal) :
    Notes [.literal token.text] (literal token) := by
  have hquiet : Quiet (literal token) :=
    quiet_of_stays fun _ _ => literal_stays token
  refine fun schema before => ends_mono (notes_quiet hquiet schema before) ?_
  rintro value after ⟨hkept, -⟩
  refine ⟨hkept, fun written hmem => ?_⟩
  cases List.mem_singleton.mp hmem

/-- The index of a join is taken of a path, which has no operands. -/
theorem indexOfJoin_notes (argument : Phrase.Expression) :
    Notes argument.operands (indexOfJoin argument) := by
  cases argument with
  | path dotted => exact notes_quiet (indexOfJoin_quiet _)
  | _ => exact notes_throw _

/-- A call notes what its arguments do. -/
theorem call_notes {name : String} {generic distinct star : Bool}
    {arguments : List Phrase.Expression}
    (hone : ∀ argument, arguments = [argument] → Notes argument.operands (expression argument))
    (hall : Notes (Phrase.expressionOperands arguments) (expressions arguments)) :
    Notes (Phrase.expressionOperands arguments)
      (expression (.call name generic distinct star arguments)) := by
  simp only [expression]
  split
  · rename_i function hfunction
    refine notes_bind (announceCollectionFunction_notes function) fun _ => ?_
    split
    · rename_i argument
      simp only [Phrase.expressionOperands, List.append_nil]
      split
      · exact indexOfJoin_notes argument
      · refine notes_then (hone argument rfl) fun value => ?_
        exact quiet_of_stays fun _ _ => collectionFunction_stays function value
    · exact notes_throw _
  · exact notes_bind (announceCall_notes name generic _) fun _ => notes_return hall

/-- A result variable is named by a path, which has no operands. -/
theorem sortItem_notes {written : Phrase.Expression} {collation ordering : Option String}
    (h : Notes written.operands (expression written)) :
    Notes written.operands (sortItem (.mk written collation ordering)) := by
  rw [sortItem]
  have hfinish : ∀ value : Resolved.Expression, Quiet (do
      let order ← ofExcept (sortOrder ordering)
      return Resolved.SortItem.mk value collation order) :=
    fun value => quiet_bind (quiet_ofExcept _) fun _ => quiet_pure _
  refine notes_get_bind fun context => ?_
  dsimp only
  split
  · rename_i value hvalue
    cases written with
    | path dotted => exact notes_quiet (hfinish value)
    | _ => cases hvalue
  · exact notes_then h hfinish

mutual

theorem expression_notes : ∀ written : Phrase.Expression,
    Notes written.operands (expression written)
  | .literal token => literal_notes token
  | .parameter written => parameter_notes written
  | .path dotted => notes_quiet (pathOrCall_quiet dotted)
  | .indexed base index remainder =>
    notes_then (expression_notes index) fun _ => indexed_quiet base _ remainder
  | .treated base entity remainder => notes_quiet (treated_quiet base entity remainder)
  | .mapFunction function argument => notes_quiet (mapEntry_quiet function argument)
  | .arithmetic _ [left, right] =>
    notes_bind (expression_notes left) fun _ =>
      notes_bind (expression_notes right) fun _ => notes_quiet (quiet_pure _)
  | .arithmetic _ [] => notes_throw _
  | .arithmetic _ [_] => notes_throw _
  | .arithmetic _ (_ :: _ :: _ :: _) => notes_throw _
  | .concatenation [left, right] =>
    notes_bind (expression_notes left) fun _ =>
      notes_bind (expression_notes right) fun _ => notes_quiet (quiet_pure _)
  | .concatenation [] => notes_throw _
  | .concatenation [_] => notes_throw _
  | .concatenation (_ :: _ :: _ :: _) => notes_throw _
  | .unary _ operand => notes_return (expression_notes operand)
  | .grouped inner => expression_notes inner
  | .call _ _ _ _ [] => call_notes (fun _ hone => by cases hone) (expressions_note [])
  | .call _ _ _ _ [argument] =>
    call_notes
      (fun _ hone => by
        cases hone
        exact expression_notes argument)
      (expressions_note [argument])
  | .call _ _ _ _ (first :: second :: rest) =>
    call_notes (fun _ hone => by cases hone) (expressions_note (first :: second :: rest))
  | .simpleCase operand whens otherwise => by
    simp only [Phrase.Expression.operands, List.append_assoc]
    exact notes_bind (expression_notes operand) fun _ =>
      notes_bind (simpleWhens_note whens) fun _ => notes_return (optional_notes otherwise)
  | .searchedCase whens otherwise =>
    notes_bind (searchedWhens_note whens) fun _ => notes_return (optional_notes otherwise)
  | .subquery nested => notes_return (query_notes nested true)

theorem expressions_note : ∀ written : List Phrase.Expression,
    Notes (Phrase.expressionOperands written) (expressions written)
  | [] => notes_quiet (quiet_pure _)
  | first :: rest =>
    notes_bind (expression_notes first) fun _ => notes_return (expressions_note rest)

theorem optional_notes : ∀ written : Option Phrase.Expression,
    Notes (Phrase.optionalOperands written) (optional written)
  | none => notes_quiet (quiet_pure _)
  | some written => notes_return (expression_notes written)

theorem simpleWhens_note : ∀ written : List Phrase.SimpleWhen,
    Notes (Phrase.simpleWhenOperands written) (simpleWhens written)
  | [] => notes_quiet (quiet_pure _)
  | .mk value result :: rest =>
    notes_bind (notes_bind (expression_notes value) fun _ => notes_return (expression_notes result))
      fun _ => notes_return (simpleWhens_note rest)

theorem searchedWhens_note : ∀ written : List Phrase.SearchedWhen,
    Notes (Phrase.searchedWhenOperands written) (searchedWhens written)
  | [] => notes_quiet (quiet_pure _)
  | .mk condition result :: rest =>
    notes_bind
      (notes_bind (predicate_notes condition) fun _ => notes_return (expression_notes result))
      fun _ => notes_return (searchedWhens_note rest)

theorem predicate_notes : ∀ written : Phrase.Predicate,
    Notes written.operands (predicate written)
  | .and left right =>
    notes_bind (predicate_notes left) fun _ => notes_return (predicate_notes right)
  | .or left right =>
    notes_bind (predicate_notes left) fun _ => notes_return (predicate_notes right)
  | .not inner => notes_return (predicate_notes inner)
  | .grouped inner => notes_return (predicate_notes inner)
  | .comparison _ left right =>
    notes_bind (expression_notes left) fun _ => notes_return (expression_notes right)
  | .between written lower upper _ => by
    simp only [Phrase.Predicate.operands, List.append_assoc]
    exact notes_bind (expression_notes written) fun _ =>
      notes_bind (expression_notes lower) fun _ => notes_return (expression_notes upper)
  | .like written pattern escape _ => by
    simp only [Phrase.Predicate.operands, List.append_assoc]
    exact notes_bind (expression_notes written) fun _ =>
      notes_bind (expression_notes pattern) fun _ => notes_return (optional_notes escape)
  | .inList written items _ =>
    notes_bind (expression_notes written) fun _ => notes_return (expressions_note items)
  | .inSubquery written operand _ => by
    cases operand with
    | subquery nested =>
      exact notes_bind (expression_notes written) fun _ => notes_return (query_notes nested true)
    | _ => exact notes_bind (expression_notes written) fun _ => notes_throw _
  | .isNull written _ => notes_return (expression_notes written)
  | .isEmpty written _ =>
    notes_then (expression_notes written) fun _ =>
      quiet_bind (quiet_of_stays fun _ _ => pluralOperand_stays _ _) fun _ =>
        quiet_pure _
  | .memberOf element collection _ =>
    notes_bind (expression_notes element) fun _ =>
      notes_after (quiet_of_stays fun _ _ => pluralOperand_stays _ _) fun _ =>
        notes_return (expression_notes collection)
  | .existence operand _ => by
    cases operand with
    | subquery nested => exact notes_return (query_notes nested true)
    | _ => exact notes_throw _

theorem restriction_notes : ∀ written : Option Phrase.Predicate,
    Notes (Phrase.restrictionOperands written) (restriction written)
  | none => notes_quiet (quiet_pure _)
  | some written => notes_return (predicate_notes written)

theorem selectExpression_notes : ∀ written : Phrase.SelectExpression,
    Notes written.operands (selectExpression written)
  | .instantiation target items =>
    notes_after (quiet_of_stays fun _ _ => instantiationTarget_stays target items)
      fun _ => notes_return (arguments_note items)
  | .object name =>
    notes_quiet (quiet_bind (quiet_of_stays fun _ _ =>
      identificationVariable_stays name) fun _ => quiet_pure _)
  | .expression written => expression_notes written

theorem arguments_note : ∀ written : List Phrase.SelectItem,
    Notes (Phrase.itemOperands written) (arguments written)
  | [] => notes_quiet (quiet_pure _)
  | .mk written _ :: rest =>
    notes_bind (selectExpression_notes written) fun _ => notes_return (arguments_note rest)

theorem selections_note : ∀ (written : List Phrase.SelectItem) (position : Nat),
    Notes (Phrase.itemOperands written) (selections written position)
  | [], _ => notes_quiet (quiet_pure _)
  | .mk written alias? :: rest, position =>
    notes_after (checkVariable_quiet alias?) fun _ =>
      notes_bind (selectExpression_notes written) fun _ =>
        notes_after (bindSelection_quiet position _) fun _ =>
          notes_return (selections_note rest (position + 1))

theorem selectClause_notes : ∀ written : Option Phrase.SelectClause,
    Notes (Phrase.clauseOperands written) (selectClause written)
  | none => notes_return implicitSelection_notes
  | some (.mk _ items) => notes_return (selections_note items 0)

theorem join_notes : ∀ (written : Phrase.Join) (id : SpaceId),
    Notes written.operands (join id written)
  | .cross written, id =>
    notes_quiet <| quiet_bind (entity_quiet _) fun _ => quiet_bind (checkVariable_quiet _) fun _ =>
      quiet_bind (crossJoin_quiet _ _ _) fun _ => quiet_pure _
  | .collection path alias?, id => notes_quiet (memberJoin_quiet id path alias?)
  | .qualified type fetch target alias? condition, id => by
    rw [join]
    refine notes_after (checkVariable_quiet _) fun _ => notes_after (quiet_comply _ _) fun _ => ?_
    refine notes_after (joinTarget_quiet _ _ _ _ _) fun element => ?_
    cases condition with
    | none => exact notes_quiet (quiet_pure _)
    | some written =>
      exact notes_then (notes_under (predicate_notes written)) fun _ => updateSpace_quiet _ _

theorem joins_note : ∀ (written : List Phrase.Join) (id : SpaceId),
    Notes (Phrase.joinOperands written) (joins id written)
  | [], _ => notes_quiet (quiet_pure _)
  | first :: rest, id => notes_bind (join_notes first id) fun _ => joins_note rest id

theorem spaces_note : ∀ written : List Phrase.Space,
    Notes (Phrase.spaceOperands written) (spaces written)
  | [] => notes_quiet (quiet_pure _)
  | .mk root hanging :: rest =>
    notes_bind
      (notes_after openSpace_quiet fun id => notes_after (root_quiet id root) fun _ =>
        joins_note hanging id)
      fun _ => spaces_note rest

theorem sortItems_note : ∀ written : List Phrase.SortItem,
    Notes (Phrase.sortOperands written) (sortItems written)
  | [] => notes_quiet (quiet_pure _)
  | .mk written _ _ :: rest =>
    notes_bind (sortItem_notes (expression_notes written)) fun _ =>
      notes_return (sortItems_note rest)

theorem order_notes : ∀ written : Option (List Phrase.SortItem),
    Notes (Phrase.orderOperands written) (order written)
  | none => notes_quiet (quiet_pure _)
  | some written => notes_return (sortItems_note written)

/-- All clauses of a query note the parameters in them, on the level of the query. -/
theorem query_notes : ∀ (written : Phrase.Query) (nested : Bool),
    Notes written.operands (query written nested)
  | .mk select written condition ordering limit offset, nested => by
    simp only [Phrase.Query.operands, List.append_assoc]
    refine notes_after (quiet_comply _ _) fun _ => notes_after (quiet_comply _ _) fun _ => ?_
    refine notes_return (notes_onLevel ?_)
    exact notes_bind (spaces_note written) fun _ =>
      notes_bind (selectClause_notes select) fun _ =>
        notes_bind (restriction_notes condition) fun _ =>
          notes_bind (order_notes ordering) fun _ =>
            notes_bind (optional_notes limit) fun _ => notes_return (optional_notes offset)

end

/-! ## Statements -/

theorem assignment_notes (written : Phrase.Assignment) :
    Notes written.value.operands (assignment written) :=
  notes_under <| notes_after (stateField_quiet _) fun _ => notes_return (expression_notes _)

theorem bulkRestriction_notes (condition : Option Phrase.Predicate) :
    Notes (Phrase.restrictionOperands condition) (bulkRestriction condition) := by
  cases condition with
  | none => exact notes_quiet (quiet_pure _)
  | some written => exact notes_return (notes_under (predicate_notes written))

/-- Every statement notes the parameters in it. -/
theorem statement_notes (written : Phrase.Statement) :
    Notes written.operands (statement written) := by
  cases written with
  | select nested => exact notes_return (query_notes nested false)
  | update target assignments condition =>
    refine notes_then (notes_onLevel ?_) fun _ => quiet_bind (quiet_ofExcept _) fun _ => quiet_pure _
    exact notes_after (bulkTarget_quiet target) fun _ =>
      notes_bind (notes_mapM assignment_notes) fun _ =>
        notes_return (bulkRestriction_notes condition)
  | delete target condition =>
    refine notes_then (notes_onLevel ?_) fun _ => quiet_bind (quiet_ofExcept _) fun _ => quiet_pure _
    exact notes_after (bulkTarget_quiet target) fun _ => bulkRestriction_notes condition
  | insert target fields nested =>
    change Notes ([] ++ nested.operands) _
    refine notes_bind (notes_onLevel (notes_quiet ?_)) fun _ =>
      notes_then (query_notes nested false) fun _ =>
        quiet_bind (quiet_ofExcept _) fun _ => quiet_pure _
    exact quiet_bind (bulkTarget_quiet _) fun _ =>
      quiet_under (mapM_quiet fun _ => stateField_quiet _)

end Step
end Interpretation

open Interpretation

/-- The parameters of a phrase that has a meaning are of one style. -/
theorem interpretPhrase_oneStyle (phrase : Phrase.Statement) (schema : Schema) :
    (∀ meaning, interpretPhrase phrase schema = .ok meaning →
        Phrase.OneStyle (Phrase.parameters phrase.operands))
      ∧ (¬Phrase.OneStyle (Phrase.parameters phrase.operands) →
        ∃ fault, interpretPhrase phrase schema = .error fault) := by
  have hone : ∀ meaning, interpretPhrase phrase schema = .ok meaning →
      Phrase.OneStyle (Phrase.parameters phrase.operands) := by
    intro meaning h
    unfold interpretPhrase at h
    split at h
    · rename_i statement context hrun
      obtain ⟨-, hfixes⟩ := Step.statement_notes phrase schema .empty statement context hrun
      exact Context.oneStyle_of_fixes fun written hmem =>
        hfixes written (Phrase.mem_parameters.mp hmem)
    · cases h
  refine ⟨hone, fun hviolated => ?_⟩
  cases hresult : interpretPhrase phrase schema with
  | error fault => exact ⟨fault, rfl⟩
  | ok meaning => exact (hviolated (hone meaning hresult)).elim

/-- A named parameter, and a positional one in a nested query. -/
def mixedText : String :=
  "delete from Shelf s where s.label = :a and exists "
    ++ "(select l from Library l where l.front.label = ?1)"

theorem interpretPhrase_oneStyle_mixed :
    (∃ phrase meaning, Phrase.Statement.ofText labelsText = .ok phrase
      ∧ interpretPhrase phrase shelving.schema = .ok meaning
      ∧ Phrase.OneStyle (Phrase.parameters phrase.operands))
    ∧ ∃ phrase fault, Phrase.Statement.ofText mixedText = .ok phrase
      ∧ ¬Phrase.OneStyle (Phrase.parameters phrase.operands)
      ∧ interpretPhrase phrase shelving.schema = .error fault := by
  refine ⟨?_, ?_⟩
  · have hok : (interpret labelsText shelving.schema).isOk = true := by decide +kernel
    obtain ⟨phrase, meaning, hread, hmeaning⟩ := interpret_isOk hok
    exact ⟨phrase, meaning, hread, hmeaning,
      (interpretPhrase_oneStyle phrase shelving.schema).1 meaning hmeaning⟩
  · have hread : ((Phrase.Statement.ofText mixedText).toOption.map fun phrase =>
        Phrase.parameters phrase.operands) = some [.named "a", .positional 1] := by
      decide +kernel
    obtain ⟨phrase, hphrase, hparameters⟩ := Option.map_eq_some_iff.mp hread
    have htext : Phrase.Statement.ofText mixedText = .ok phrase := by
      cases hresult : Phrase.Statement.ofText mixedText with
      | error failure =>
        rw [hresult] at hphrase
        cases hphrase
      | ok other =>
        rw [hresult] at hphrase
        cases hphrase
        rfl
    have hviolated : ¬Phrase.OneStyle (Phrase.parameters phrase.operands) := by
      rw [hparameters]
      rintro (hnamed | hpositional)
      · obtain ⟨name, hname⟩ := hnamed (.positional 1) (by decide)
        cases hname
      · obtain ⟨position, hposition, -⟩ := hpositional (.named "a") (by decide)
        cases hposition
    obtain ⟨fault, hfault⟩ := (interpretPhrase_oneStyle phrase shelving.schema).2 hviolated
    exact ⟨phrase, fault, htext, hviolated, hfault⟩

end EntityQuery

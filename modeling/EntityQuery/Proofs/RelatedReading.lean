import EntityQuery.Grammar.Reading
import EntityQuery.Proofs.FoldedReaders

/-!
# Reading related phrases

What is proved about the phrases that the grammar reads is a relation between the phrase that is
read of a text and the one that is read of the text in small letters. A congruence is such a
relation for expressions, predicates, selections, joins and queries: it relates phrases of one form
if it relates their parts. Its rules ask only for the forms that are read, so operators have two
operands and the operand of `in` is a query.

The productions of the grammar are followed twice, on a text and on the text in small letters. They
decide alike wherever they choose, so what they read is related by every congruence.

* `Congruence`: the relations with their rules.
* `Space.Related`, `SelectItem.Related`, …: phrases that hold related parts.
* `Statement.Related`: statements that hold related parts.
* `Inner.Keeps`, `Inner.Keeps.layer`: the layers of the grammar read related phrases.
* `statement_folds`, `concatenation_folds`: statements and expressions of related parts.
-/

namespace EntityQuery.Phrase

open Grammar (Spells)

/-! ## Phrases that hold related parts -/

section

variable (expression : Expression → Expression → Prop) (predicate : Predicate → Predicate → Prop)
  (selection : SelectExpression → SelectExpression → Prop) (join : Join → Join → Prop)

def SimpleWhen.Related : SimpleWhen → SimpleWhen → Prop
  | .mk value result, .mk value' result' => expression value value' ∧ expression result result'

def SearchedWhen.Related : SearchedWhen → SearchedWhen → Prop
  | .mk condition result, .mk condition' result' =>
    predicate condition condition' ∧ expression result result'

def SelectItem.Related : SelectItem → SelectItem → Prop
  | .mk selected alias?, .mk selected' alias?' =>
    selection selected selected' ∧ Option.Rel Spells alias? alias?'

def SelectClause.Related : SelectClause → SelectClause → Prop
  | .mk distinct items, .mk distinct' items' =>
    distinct = distinct' ∧ List.Forall₂ (SelectItem.Related selection) items items'

/-- The second root is the first one, whose variable is an identifier, in small letters. -/
def Root.Related (root small : Root) : Prop :=
  root.entity.lowered = small.entity ∧ Option.Rel Spells root.alias? small.alias?

def Space.Related : Space → Space → Prop
  | .mk root joins, .mk root' joins' => root.Related root' ∧ List.Forall₂ join joins joins'

def SortItem.Related : SortItem → SortItem → Prop
  | .mk sorted collation ordering, .mk sorted' collation' ordering' =>
    expression sorted sorted' ∧ collation.map Text.lowered = collation'
      ∧ ordering.map Text.lowered = ordering'

def Assignment.Related (assignment small : Assignment) : Prop :=
  assignment.path.lowered = small.path ∧ expression assignment.value small.value

end

/-! ## Congruences -/

/-- A relation that the phrases of the grammar keep. -/
structure Congruence where
  expression : Expression → Expression → Prop
  predicate : Predicate → Predicate → Prop
  selection : SelectExpression → SelectExpression → Prop
  join : Join → Join → Prop
  query : Query → Query → Prop
  -- expressions
  literal {token : Literal} (h : token.IsRead) :
    expression (.literal token) (.literal token.lowered)
  parameter (written : Parameter) : expression (.parameter written) (.parameter written.lowered)
  path (path : DottedName) : expression (.path path) (.path path.lowered)
  indexed {index index' : Expression} (base : DottedName) (remainder : Option DottedName)
    (h : expression index index') :
    expression (.indexed base index remainder)
      (.indexed base.lowered index' (remainder.map DottedName.lowered))
  treated (base entity : DottedName) (remainder : Option DottedName) :
    expression (.treated base entity remainder)
      (.treated base.lowered entity.lowered (remainder.map DottedName.lowered))
  mapFunction (function : MapFunction) (argument : DottedName) :
    expression (.mapFunction function argument) (.mapFunction function argument.lowered)
  arithmetic {left left' right right' : Expression} (operator : ArithmeticOperator)
    (hleft : expression left left') (hright : expression right right') :
    expression (.arithmetic operator [left, right]) (.arithmetic operator [left', right'])
  concatenation {left left' right right' : Expression} (hleft : expression left left')
    (hright : expression right right') :
    expression (.concatenation [left, right]) (.concatenation [left', right'])
  unary {operand operand' : Expression} (sign : Sign) (h : expression operand operand') :
    expression (.unary sign operand) (.unary sign operand')
  grouped {inner inner' : Expression} (h : expression inner inner') :
    expression (.grouped inner) (.grouped inner')
  call {arguments arguments' : List Expression} (name : String) (generic distinct star : Bool)
    (h : List.Forall₂ expression arguments arguments') :
    expression (.call name generic distinct star arguments)
      (.call (Text.lowered name) generic distinct star arguments')
  simpleCase {operand operand' : Expression} {whens whens' : List SimpleWhen}
    {otherwise otherwise' : Option Expression} (hoperand : expression operand operand')
    (hwhens : List.Forall₂ (SimpleWhen.Related expression) whens whens')
    (hotherwise : Option.Rel expression otherwise otherwise') :
    expression (.simpleCase operand whens otherwise) (.simpleCase operand' whens' otherwise')
  searchedCase {whens whens' : List SearchedWhen} {otherwise otherwise' : Option Expression}
    (hwhens : List.Forall₂ (SearchedWhen.Related expression predicate) whens whens')
    (hotherwise : Option.Rel expression otherwise otherwise') :
    expression (.searchedCase whens otherwise) (.searchedCase whens' otherwise')
  subquery {inner inner' : Query} (h : query inner inner') :
    expression (.subquery inner) (.subquery inner')
  -- predicates
  and {left left' right right' : Predicate} (hleft : predicate left left')
    (hright : predicate right right') : predicate (.and left right) (.and left' right')
  or {left left' right right' : Predicate} (hleft : predicate left left')
    (hright : predicate right right') : predicate (.or left right) (.or left' right')
  not {inner inner' : Predicate} (h : predicate inner inner') :
    predicate (.not inner) (.not inner')
  groupedPredicate {inner inner' : Predicate} (h : predicate inner inner') :
    predicate (.grouped inner) (.grouped inner')
  comparison {left left' right right' : Expression} (operator : ComparisonOperator)
    (hleft : expression left left') (hright : expression right right') :
    predicate (.comparison operator left right) (.comparison operator left' right')
  between {tested tested' lower lower' upper upper' : Expression} (negated : Bool)
    (htested : expression tested tested') (hlower : expression lower lower')
    (hupper : expression upper upper') :
    predicate (.between tested lower upper negated) (.between tested' lower' upper' negated)
  like {matched matched' pattern pattern' : Expression} {escape escape' : Option Expression}
    (negated : Bool) (hmatched : expression matched matched')
    (hpattern : expression pattern pattern') (hescape : Option.Rel expression escape escape') :
    predicate (.like matched pattern escape negated) (.like matched' pattern' escape' negated)
  inList {tested tested' : Expression} {items items' : List Expression} (negated : Bool)
    (htested : expression tested tested') (hitems : List.Forall₂ expression items items') :
    predicate (.inList tested items negated) (.inList tested' items' negated)
  inSubquery {tested tested' : Expression} {inner inner' : Query} (negated : Bool)
    (htested : expression tested tested') (h : query inner inner') :
    predicate (.inSubquery tested (.subquery inner) negated)
      (.inSubquery tested' (.subquery inner') negated)
  isNull {tested tested' : Expression} (negated : Bool) (h : expression tested tested') :
    predicate (.isNull tested negated) (.isNull tested' negated)
  isEmpty {tested tested' : Expression} (negated : Bool) (h : expression tested tested') :
    predicate (.isEmpty tested negated) (.isEmpty tested' negated)
  memberOf {element element' collection collection' : Expression} (negated : Bool)
    (helement : expression element element') (hcollection : expression collection collection') :
    predicate (.memberOf element collection negated) (.memberOf element' collection' negated)
  existence {operand operand' : Expression} (negated : Bool) (h : expression operand operand') :
    predicate (.existence operand negated) (.existence operand' negated)
  -- selections and joins
  instantiation {items items' : List SelectItem} (target : Target)
    (h : List.Forall₂ (SelectItem.Related selection) items items') :
    selection (.instantiation target items) (.instantiation target.lowered items')
  object (name : String) : selection (.object name) (.object (Text.lowered name))
  selected {written written' : Expression} (h : expression written written') :
    selection (.expression written) (.expression written')
  cross {root root' : Root} (h : root.Related root') : join (.cross root) (.cross root')
  collection {alias? alias?' : Option String} (path : DottedName)
    (h : Option.Rel Spells alias? alias?') :
    join (.collection path alias?) (.collection path.lowered alias?')
  qualified {alias? alias?' : Option String} {condition condition' : Option Predicate}
    (type : JoinType) (fetch : Bool) (target : JoinTarget)
    (halias : Option.Rel Spells alias? alias?')
    (hcondition : Option.Rel predicate condition condition') :
    join (.qualified type fetch target alias? condition)
      (.qualified type fetch target.lowered alias?' condition')
  -- queries
  clauses {select select' : Option SelectClause} {spaces spaces' : List Space}
    {restriction restriction' : Option Predicate} {order order' : Option (List SortItem)}
    {limit limit' offset offset' : Option Expression}
    (hselect : Option.Rel (SelectClause.Related selection) select select')
    (hspaces : List.Forall₂ (Space.Related join) spaces spaces')
    (hrestriction : Option.Rel predicate restriction restriction')
    (horder : Option.Rel (List.Forall₂ (SortItem.Related expression)) order order')
    (hlimit : Option.Rel expression limit limit') (hoffset : Option.Rel expression offset offset') :
    query (.mk select spaces restriction order limit offset)
      (.mk select' spaces' restriction' order' limit' offset')

/-- Statements of one form that hold related parts. -/
inductive Statement.Related (C : Congruence) : Statement → Statement → Prop where
  | select {query query' : Query} (h : C.query query query') :
    Statement.Related C (.select query) (.select query')
  | update {target target' : Root} {assignments assignments' : List Assignment}
    {restriction restriction' : Option Predicate} (htarget : target.Related target')
    (hassignments : List.Forall₂ (Assignment.Related C.expression) assignments assignments')
    (hrestriction : Option.Rel C.predicate restriction restriction') :
    Statement.Related C (.update target assignments restriction)
      (.update target' assignments' restriction')
  | delete {target target' : Root} {restriction restriction' : Option Predicate}
    (htarget : target.Related target')
    (hrestriction : Option.Rel C.predicate restriction restriction') :
    Statement.Related C (.delete target restriction) (.delete target' restriction')
  | insert {query query' : Query} (target : DottedName) (stateFields : List DottedName)
    (hquery : C.query query query') :
    Statement.Related C (.insert target stateFields query)
      (.insert target.lowered (stateFields.map DottedName.lowered) query')

end EntityQuery.Phrase

/-! ## Layers of the grammar -/

namespace EntityQuery.Grammar

open EntityQuery.Phrase EntityQuery.Text
open Reader

/-- The readers through which the grammar enters itself read related phrases. -/
structure Inner.Keeps (inner : Inner) (C : Congruence) : Prop where
  predicate : inner.predicate.Folds inner.predicate C.predicate
  negatable : inner.negatable.Folds inner.negatable C.predicate
  expression : inner.expression.Folds inner.expression C.expression
  signed : inner.signed.Folds inner.signed C.expression
  query : inner.query.Folds inner.query C.query
  instantiation : inner.instantiation.Folds inner.instantiation C.selection

theorem clause?_folds {α : Type} {R : α → α → Prop} {content : Reader α} (word : String)
    (h : content.Folds content R) :
    (clause? word content).Folds (clause? word content) (Option.Rel R) := by
  refine folds_accepting (keyword_folds word) ?_ (folds_pure .none)
  exact folds_bind h fun _ _ hvalue => folds_pure (.some hvalue)

theorem root_folds : root.Folds root Root.Related :=
  folds_bind dottedName_folds fun _ _ hentity =>
    folds_bind optionalAlias_folds fun _ _ halias => folds_pure ⟨hentity, halias⟩

theorem remainder_folds :
    remainder.Folds remainder fun found small => found.map DottedName.lowered = small :=
  folds_mono (folds_optional (folds_then (sign_folds (by decide)) fun _ _ => dottedName_folds))
    fun _ _ h => map_of_rel (fun _ _ => id) h

section

variable {C : Congruence} {inner : Inner} (hinner : inner.Keeps C)

/-! ## Primary expressions -/

theorem treatedPath_folds : treatedPath.Folds treatedPath C.expression := by
  refine folds_then (sign_folds (by decide)) fun _ _ => ?_
  refine folds_bind dottedIdentifier_folds ?_
  rintro base _ rfl
  refine folds_then (keyword_folds "as") fun _ _ => folds_bind dottedName_folds ?_
  rintro entity _ rfl
  refine folds_then (sign_folds (by decide)) fun _ _ => folds_bind remainder_folds ?_
  rintro remainder _ rfl
  exact folds_pure (C.treated base entity remainder)

theorem mapArgument_folds (function : MapFunction) :
    (mapArgument function).Folds (mapArgument function) C.expression := by
  refine folds_then (sign_folds (by decide)) fun _ _ => folds_bind dottedIdentifier_folds ?_
  rintro argument _ rfl
  exact folds_then (sign_folds (by decide)) fun _ _ => folds_pure (C.mapFunction function argument)

include hinner

theorem arguments_folds :
    (arguments inner).Folds (arguments inner) (List.Forall₂ C.expression) :=
  folds_separated (sign_folds (by decide)) hinner.expression

theorem parenthesized_folds : (parenthesized inner).Folds (parenthesized inner) C.expression := by
  refine folds_looking beginsQuery_foldCase ?_ ?_
  · exact folds_bind hinner.query fun _ _ hquery =>
      folds_then (sign_folds (by decide)) fun _ _ => folds_pure (C.subquery hquery)
  · exact folds_bind hinner.expression fun _ _ h =>
      folds_then (sign_folds (by decide)) fun _ _ => folds_pure (C.grouped h)

theorem caseEnd_folds : (caseEnd inner).Folds (caseEnd inner) (Option.Rel C.expression) := by
  refine folds_accepting (keyword_folds "else") ?_ ?_
  · exact folds_bind hinner.expression fun _ _ h =>
      folds_then (keyword_folds "end") fun _ _ => folds_pure (.some h)
  · exact folds_then (keyword_folds "end") fun _ _ => folds_pure .none

theorem searchedWhen_folds :
    (searchedWhen inner).Folds (searchedWhen inner)
      (Option.Rel (SearchedWhen.Related C.expression C.predicate)) := by
  refine folds_accepting (keyword_folds "when") ?_ (folds_pure .none)
  exact folds_bind hinner.predicate fun _ _ hcondition =>
    folds_then (keyword_folds "then") fun _ _ =>
      folds_bind hinner.expression fun _ _ hresult => folds_pure (.some ⟨hcondition, hresult⟩)

theorem simpleWhen_folds :
    (simpleWhen inner).Folds (simpleWhen inner)
      (Option.Rel (SimpleWhen.Related C.expression)) := by
  refine folds_accepting (keyword_folds "when") ?_ (folds_pure .none)
  exact folds_bind hinner.expression fun _ _ hvalue =>
    folds_then (keyword_folds "then") fun _ _ =>
      folds_bind hinner.expression fun _ _ hresult => folds_pure (.some ⟨hvalue, hresult⟩)

theorem caseExpression_folds :
    (caseExpression inner).Folds (caseExpression inner) C.expression := by
  refine folds_looking (beginsWithWord_foldCase "when") ?_ ?_
  · exact folds_bind (folds_many (searchedWhen_folds hinner)) fun _ _ hwhens =>
      folds_bind (caseEnd_folds hinner) fun _ _ hotherwise =>
        folds_pure (C.searchedCase hwhens hotherwise)
  · refine folds_bind hinner.expression fun operand operand' hoperand => ?_
    refine folds_bind (folds_many (simpleWhen_folds hinner)) fun whens whens' hwhens => ?_
    cases hwhens with
    | nil => exact folds_fail
    | cons hfirst hrest =>
      exact folds_bind (caseEnd_folds hinner) fun _ _ hotherwise =>
        folds_pure (C.simpleCase hoperand (.cons hfirst hrest) hotherwise)

theorem genericCall_folds : (genericCall inner).Folds (genericCall inner) C.expression := by
  refine folds_then (sign_folds (by decide)) fun _ _ => folds_then blanks_folds fun _ _ => ?_
  refine folds_bind literalToken_folds ?_
  rintro name _ ⟨rfl, -⟩
  refine folds_accepting (sign_folds (by decide)) ?_ ?_
  · exact folds_bind (arguments_folds hinner) fun _ _ hvalues =>
      folds_then (sign_folds (by decide)) fun _ _ =>
        folds_pure (C.call name.text true false false hvalues)
  · exact folds_then (sign_folds (by decide)) fun _ _ =>
      folds_pure (C.call name.text true false false .nil)

theorem call_folds (name : String) :
    (call inner name).Folds (call inner (lowered name)) C.expression := by
  refine folds_then (sign_folds (by decide)) fun _ _ => ?_
  refine folds_accepting (sign_folds (by decide)) ?_
    (folds_looking (beginsWithSign_foldCase (by decide)) ?_ ?_)
  · exact folds_then (sign_folds (by decide)) fun _ _ =>
      folds_pure (C.call name false false true .nil)
  · exact folds_then (sign_folds (by decide)) fun _ _ =>
      folds_pure (C.call name false false false .nil)
  · refine folds_bind (folds_accepts (keyword_folds "distinct")) ?_
    rintro distinct _ rfl
    exact folds_bind (arguments_folds hinner) fun _ _ hvalues =>
      folds_then (sign_folds (by decide)) fun _ _ =>
        folds_pure (C.call name false distinct false hvalues)

theorem pathFrom_folds (first : String) :
    (pathFrom inner first).Folds (pathFrom inner (lowered first)) C.expression := by
  refine folds_bind (dottedTail_folds rfl) ?_
  rintro base _ rfl
  refine folds_accepting (sign_folds (by decide)) ?_ (folds_pure (C.path base))
  refine folds_bind hinner.expression fun index index' hindex => ?_
  refine folds_then (sign_folds (by decide)) fun _ _ => folds_bind remainder_folds ?_
  rintro remainder _ rfl
  exact folds_pure (C.indexed base remainder hindex)

theorem pathOrCall_folds : (pathOrCall inner).Folds (pathOrCall inner) C.expression := by
  refine folds_bind identifier_folds ?_
  rintro first _ ⟨rfl, -⟩
  refine folds_looking (beginsWithSign_foldCase (by decide)) ?_ (pathFrom_folds hinner first)
  rw [lowered_lowered]
  have hcall := call_folds hinner first
  split
  · exact treatedPath_folds
  · exact mapArgument_folds .key
  · exact mapArgument_folds .value
  · exact mapArgument_folds .entry
  · exact genericCall_folds hinner
  · exact hcall

theorem primary_folds : (primary inner).Folds (primary inner) C.expression := by
  refine folds_then blanks_folds fun _ _ => ?_
  refine folds_accepting (sign_folds (by decide)) (parenthesized_folds hinner) ?_
  refine folds_bind parameter_folds ?_
  rintro (_ | parameter) _ rfl
  · refine folds_bind (folds_optional literalToken_folds) ?_
    rintro _ _ (⟨rfl, hread⟩ | _)
    · exact folds_pure (C.literal hread)
    · exact folds_accepting (exactKeyword_folds "case") (caseExpression_folds hinner)
        (pathOrCall_folds hinner)
  · exact folds_pure (C.parameter parameter)

/-! ## Expressions -/

omit hinner in
theorem operator_folds {α : Type} {first second : String × α} (hfirst : Unlettered first.1)
    (hsecond : Unlettered second.1) : (operator first second).Folds (operator first second) Eq :=
  folds_accepting (sign_folds hfirst) (folds_pure rfl)
    (folds_accepting (sign_folds hsecond) (folds_pure rfl) (folds_pure rfl))

theorem signed_folds : (signed inner).Folds (signed inner) C.expression := by
  refine folds_bind (operator_folds (by decide) (by decide)) ?_
  rintro (_ | sign) _ rfl
  · exact primary_folds hinner
  · exact folds_bind hinner.signed fun _ _ h => folds_pure (C.unary sign h)

omit hinner in
theorem leftGrouped_folds {operator : Reader (Option ArithmeticOperator)}
    {operand : Reader Expression} (hoperator : operator.Folds operator Eq)
    (h : operand.Folds operand C.expression) :
    (leftGrouped operator operand).Folds (leftGrouped operator operand) C.expression := by
  refine folds_bind h fun first first' hfirst => folds_chain hfirst fun left left' hleft => ?_
  refine folds_bind hoperator ?_
  rintro (_ | operator) _ rfl
  · exact folds_pure .none
  · exact folds_bind h fun _ _ hright => folds_pure (.some (C.arithmetic operator hleft hright))

theorem additive_folds : (additive inner).Folds (additive inner) C.expression :=
  leftGrouped_folds (operator_folds (by decide) (by decide))
    (leftGrouped_folds (operator_folds (by decide) (by decide)) (signed_folds hinner))

theorem concatenation_folds : (concatenation inner).Folds (concatenation inner) C.expression := by
  refine folds_bind (additive_folds hinner) fun first first' hfirst => ?_
  refine folds_chain hfirst fun left left' hleft => ?_
  refine folds_accepting (sign_folds (by decide)) ?_ (folds_pure .none)
  exact folds_bind (additive_folds hinner) fun _ _ hright =>
    folds_pure (.some (C.concatenation hleft hright))

/-! ## Predicates -/

omit hinner in
theorem comparisonOperator_folds : comparisonOperator.Folds comparisonOperator Eq := by
  have hsigns : ∀ entry ∈ comparisonSigns, Unlettered entry.1 := by decide
  refine folds_then blanks_folds fun _ _ text => ?_
  have hfound : (comparisonSigns.findSome? fun entry =>
        (dropSign? entry.1.toList (foldCase text)).map fun rest => (entry.2, rest))
      = (comparisonSigns.findSome? fun entry =>
          (dropSign? entry.1.toList text).map fun rest => (entry.2, rest)).map
        (Prod.map id foldCase) := by
    rw [List.map_findSome?]
    refine findSome?_congr fun entry hentry => ?_
    rw [dropSign?_foldCase (hsigns entry hentry), Function.comp_apply, Option.map_map,
      Option.map_map]
    rfl
  simp only [hfound]
  cases comparisonSigns.findSome? fun entry =>
      (dropSign? entry.1.toList text).map fun rest => (entry.2, rest) with
  | none => exact .fail text
  | some read => exact .ok rfl

omit hinner in
theorem continuesExpression_foldCase (text : List Char) :
    continuesExpression (foldCase text) = continuesExpression text := by
  have hsigns : ∀ sign ∈ continuingSigns, Unlettered sign := by decide
  have hsign : (continuingSigns.any fun sign => beginsWithSign sign (foldCase text))
      = continuingSigns.any fun sign => beginsWithSign sign text := by
    rw [Bool.eq_iff_iff, List.any_eq_true, List.any_eq_true]
    exact exists_congr fun sign => and_congr_right fun hsign => by
      rw [beginsWithSign_foldCase (hsigns sign hsign)]
  simp only [continuesExpression, hsign, beginsWithWord_foldCase]

theorem groupedAlone?_folds :
    (groupedAlone? inner).Folds (groupedAlone? inner) (Option.Rel C.predicate) := by
  refine folds_optional (folds_looking (beginsWithSign_foldCase (by decide)) ?_ folds_fail)
  refine folds_bind (R := C.predicate) ?_ fun _ _ h =>
    folds_looking continuesExpression_foldCase folds_fail (folds_pure h)
  refine folds_then (sign_folds (by decide)) fun _ _ => ?_
  refine folds_looking beginsQuery_foldCase folds_fail ?_
  exact folds_bind hinner.predicate fun _ _ h =>
    folds_then (sign_folds (by decide)) fun _ _ => folds_pure (C.groupedPredicate h)

section

variable {tested tested' : Expression} (htested : C.expression tested tested') (negated : Bool)
include htested

theorem inOperand_folds :
    (inOperand inner tested negated).Folds (inOperand inner tested' negated) C.predicate := by
  refine folds_accepting (sign_folds (by decide)) (folds_looking beginsQuery_foldCase ?_ ?_) ?_
  · exact folds_bind hinner.query fun _ _ hquery =>
      folds_then (sign_folds (by decide)) fun _ _ =>
        folds_pure (C.inSubquery negated htested hquery)
  · exact folds_bind (arguments_folds hinner) fun _ _ hitems =>
      folds_then (sign_folds (by decide)) fun _ _ => folds_pure (C.inList negated htested hitems)
  · exact folds_bind (concatenation_folds hinner) fun _ _ hitem =>
      folds_pure (C.inList negated htested (.cons hitem .nil))

theorem betweenOperands_folds :
    (betweenOperands inner tested negated).Folds (betweenOperands inner tested' negated)
      C.predicate :=
  folds_bind (concatenation_folds hinner) fun _ _ hlower =>
    folds_then (keyword_folds "and") fun _ _ =>
      folds_bind (concatenation_folds hinner) fun _ _ hupper =>
        folds_pure (C.between negated htested hlower hupper)

theorem likeOperands_folds :
    (likeOperands inner tested negated).Folds (likeOperands inner tested' negated)
      C.predicate := by
  refine folds_bind (concatenation_folds hinner) fun pattern pattern' hpattern => ?_
  refine folds_accepting (keyword_folds "escape") ?_
    (folds_pure (C.like negated htested hpattern .none))
  exact folds_bind (concatenation_folds hinner) fun _ _ hescape =>
    folds_pure (C.like negated htested hpattern (.some hescape))

theorem memberOperand_folds :
    (memberOperand inner tested negated).Folds (memberOperand inner tested' negated)
      C.predicate :=
  folds_then (folds_accepts (keyword_folds "of")) fun _ _ =>
    folds_bind (concatenation_folds hinner) fun _ _ h => folds_pure (C.memberOf negated htested h)

omit hinner in
theorem isOperand_folds : (isOperand tested).Folds (isOperand tested') C.predicate := by
  refine folds_bind (folds_accepts (keyword_folds "not")) ?_
  rintro negated _ rfl
  refine folds_accepting (keyword_folds "null") (folds_pure (C.isNull negated htested)) ?_
  exact folds_then (keyword_folds "empty") fun _ _ => folds_pure (C.isEmpty negated htested)

theorem operatorOperands_folds :
    (operatorOperands inner tested).Folds (operatorOperands inner tested') C.predicate := by
  intro start
  unfold operatorOperands
  refine Folds.reply (folds_bind (folds_accepts (keyword_folds "not")) ?_) start
  rintro negated _ rfl
  refine folds_accepting (keyword_folds "between") (betweenOperands_folds hinner htested negated) ?_
  refine folds_accepting (keyword_folds "like") (likeOperands_folds hinner htested negated) ?_
  refine folds_accepting (keyword_folds "in") (inOperand_folds hinner htested negated) ?_
  refine folds_accepting (keyword_folds "member") (memberOperand_folds hinner htested negated) ?_
  split
  · exact folds_failAt start
  · refine folds_bind comparisonOperator_folds ?_
    rintro operator _ rfl
    exact folds_bind (concatenation_folds hinner) fun _ _ h =>
      folds_pure (C.comparison operator htested h)

end

theorem existence_folds (negated : Bool) :
    (existence inner negated).Folds (existence inner negated) C.predicate :=
  folds_bind (concatenation_folds hinner) fun _ _ h => folds_pure (C.existence negated h)

theorem primaryPredicate_folds :
    (primaryPredicate inner).Folds (primaryPredicate inner) C.predicate := by
  refine folds_accepting (keyword_folds "exists") (existence_folds hinner false) ?_
  refine folds_bind (groupedAlone?_folds hinner) ?_
  rintro _ _ (hgrouped | _)
  · exact folds_pure hgrouped
  · exact folds_bind (concatenation_folds hinner) fun _ _ h =>
      folds_accepting (keyword_folds "is") (isOperand_folds h) (operatorOperands_folds hinner h)

theorem negatable_folds : (negatable inner).Folds (negatable inner) C.predicate := by
  intro start
  unfold negatable
  have hprimary := primaryPredicate_folds hinner
  refine Folds.reply (folds_accepting (keyword_folds "not") ?_ hprimary) start
  refine folds_accepting (keyword_folds "exists") (existence_folds hinner true) ?_
  refine folds_bind (folds_optional hinner.negatable) ?_
  rintro _ _ (h | _)
  · exact folds_pure (C.not h)
  · exact folds_failAt start

omit hinner in
theorem joined_folds {operand : Reader Predicate} {join : Predicate → Predicate → Predicate}
    (word : String) (h : operand.Folds operand C.predicate)
    (hjoin : ∀ {left left' right right'}, C.predicate left left' → C.predicate right right' →
      C.predicate (join left right) (join left' right')) :
    (joined word join operand).Folds (joined word join operand) C.predicate := by
  refine folds_bind h fun first first' hfirst => folds_chain hfirst fun left left' hleft => ?_
  refine folds_accepting (keyword_folds word) ?_ (folds_pure .none)
  exact folds_bind h fun _ _ hright => folds_pure (.some (hjoin hleft hright))

theorem disjunction_folds : (disjunction inner).Folds (disjunction inner) C.predicate :=
  joined_folds "or" (joined_folds "and" (negatable_folds hinner) C.and) C.or

/-! ## Queries -/

theorem selectItem_folds :
    (selectItem inner).Folds (selectItem inner) (SelectItem.Related C.selection) := by
  refine folds_bind (R := C.selection) ?_ fun _ _ hselected =>
    folds_bind optionalAlias_folds fun _ _ halias => folds_pure ⟨hselected, halias⟩
  refine folds_accepting (keyword_folds "new") hinner.instantiation ?_
  refine folds_bind (folds_accepts (folds_then (keyword_folds "object") fun _ _ =>
    sign_folds (by decide))) ?_
  rintro opened _ rfl
  split
  · refine folds_bind identifier_folds ?_
    rintro name _ ⟨rfl, -⟩
    exact folds_then (sign_folds (by decide)) fun _ _ => folds_pure (C.object name)
  · exact folds_bind (concatenation_folds hinner) fun _ _ h => folds_pure (C.selected h)

theorem selectItems_folds :
    (selectItems inner).Folds (selectItems inner)
      (List.Forall₂ (SelectItem.Related C.selection)) :=
  folds_separated (sign_folds (by decide)) (selectItem_folds hinner)

theorem selectClause_folds :
    (selectClause inner).Folds (selectClause inner) (SelectClause.Related C.selection) := by
  refine folds_bind (folds_accepts (keyword_folds "distinct")) ?_
  rintro distinct _ rfl
  exact folds_bind (selectItems_folds hinner) fun _ _ hitems => folds_pure ⟨rfl, hitems⟩

omit hinner in
theorem targetOf_lowered (name : DottedName) :
    targetOf name.lowered = (targetOf name).lowered := by
  have hsimple : name.lowered.isSimple = name.isSimple := by
    simp [DottedName.isSimple, DottedName.length, DottedName.lowered]
  have hfirst : name.lowered.first = lowered name.first := by
    obtain ⟨_ | ⟨first, rest⟩⟩ := name <;> rfl
  have hword : ∀ word, sameWord name.lowered.first word = sameWord name.first word := by
    intro word
    rw [hfirst, sameWord, sameWord, lowered_lowered]
  rw [targetOf, targetOf, hsimple, hword, hword, apply_ite Target.lowered,
    apply_ite Target.lowered]
  rfl

theorem instantiation_folds : (instantiation inner).Folds (instantiation inner) C.selection := by
  refine folds_bind dottedName_folds ?_
  rintro name _ rfl
  refine folds_then (sign_folds (by decide)) fun _ _ => ?_
  refine folds_bind (selectItems_folds hinner) fun items items' hitems => ?_
  refine folds_then (sign_folds (by decide)) fun _ _ => folds_pure ?_
  rw [targetOf_lowered]
  exact C.instantiation (targetOf name) hitems

omit hinner in
theorem collectionJoin_folds : collectionJoin.Folds collectionJoin C.join := by
  refine folds_then (sign_folds (by decide)) fun _ _ => folds_bind dottedIdentifier_folds ?_
  rintro path _ rfl
  exact folds_then (sign_folds (by decide)) fun _ _ =>
    folds_bind optionalAlias_folds fun _ _ halias => folds_pure (C.collection path halias)

omit hinner in
theorem joinType?_folds : joinType?.Folds joinType? Eq := by
  have houter : ∀ type : JoinType,
      Folds (do let _ ← accepts (keyword "outer"); return some type)
        (do let _ ← accepts (keyword "outer"); return some type) Eq :=
    fun type => folds_then (folds_accepts (keyword_folds "outer")) fun _ _ => folds_pure rfl
  exact folds_accepting (keyword_folds "inner") (folds_pure rfl)
    (folds_accepting (keyword_folds "left") (houter .left)
      (folds_accepting (keyword_folds "right") (houter .right)
        (folds_accepting (keyword_folds "full") (houter .full) (folds_pure rfl))))

omit hinner in
theorem joinOpening_folds : joinOpening.Folds joinOpening Eq := by
  intro start
  unfold joinOpening
  refine Folds.reply (folds_bind joinType?_folds ?_) start
  rintro type? _ rfl
  refine folds_accepting (keyword_folds "join") (folds_pure rfl) ?_
  split
  · exact folds_failAt start
  · exact folds_backTo start rfl

omit hinner in
theorem joinTarget_folds :
    joinTarget.Folds joinTarget fun target small => target.lowered = small := by
  refine folds_bind (folds_accepts (folds_then (keyword_folds "treat") fun _ _ =>
    sign_folds (by decide))) ?_
  rintro opened _ rfl
  split
  · refine folds_bind dottedIdentifier_folds ?_
    rintro path _ rfl
    refine folds_then (keyword_folds "as") fun _ _ => folds_bind dottedName_folds ?_
    rintro entity _ rfl
    exact folds_then (sign_folds (by decide)) fun _ _ => folds_pure rfl
  · refine folds_bind dottedName_folds ?_
    rintro path _ rfl
    exact folds_pure rfl

theorem joinPredicate_folds :
    (joinPredicate inner).Folds (joinPredicate inner) (Option.Rel C.predicate) := by
  refine folds_accepting (keyword_folds "on") ?_ (clause?_folds "with" (disjunction_folds hinner))
  exact folds_bind (disjunction_folds hinner) fun _ _ h => folds_pure (.some h)

theorem join?_folds : (join? inner).Folds (join? inner) (Option.Rel C.join) := by
  refine folds_accepting (keyword_folds "cross") ?_ ?_
  · exact folds_then (keyword_folds "join") fun _ _ =>
      folds_bind root_folds fun _ _ hroot => folds_pure (.some (C.cross hroot))
  · refine folds_bind joinOpening_folds ?_
    rintro (_ | type) _ rfl
    · exact folds_pure .none
    · refine folds_bind (folds_accepts (keyword_folds "fetch")) ?_
      rintro fetch _ rfl
      refine folds_bind joinTarget_folds ?_
      rintro target _ rfl
      exact folds_bind optionalAlias_folds fun _ _ halias =>
        folds_bind (joinPredicate_folds hinner) fun _ _ hcondition =>
          folds_pure (.some (C.qualified type fetch target halias hcondition))

theorem space_folds : (space inner).Folds (space inner) (Space.Related C.join) :=
  folds_bind root_folds fun _ _ hroot =>
    folds_bind (folds_many (join?_folds hinner)) fun _ _ hjoins => folds_pure ⟨hroot, hjoins⟩

omit hinner in
theorem addToLast_cons (join : Join) (space next : Space) (rest : List Space) :
    addToLast join (space :: next :: rest) = space :: addToLast join (next :: rest) := by
  rw [addToLast]
  simp

omit hinner in
theorem addToLast_related {added added' : Join} (hjoin : C.join added added')
    {spaces spaces' : List Space} (h : List.Forall₂ (Space.Related C.join) spaces spaces') :
    List.Forall₂ (Space.Related C.join) (addToLast added spaces) (addToLast added' spaces') := by
  induction h with
  | nil => exact .nil
  | @cons space space' others others' hspace hothers ih =>
    cases hothers with
    | nil =>
      obtain ⟨root, joins⟩ := space
      obtain ⟨root', joins'⟩ := space'
      exact .cons ⟨hspace.1, List.rel_append hspace.2 (.cons hjoin .nil)⟩ .nil
    | cons hnext hrest =>
      rw [addToLast_cons, addToLast_cons]
      exact .cons hspace ih

theorem spaces_folds :
    (spaces inner).Folds (spaces inner) (List.Forall₂ (Space.Related C.join)) := by
  refine folds_bind (space_folds hinner) fun first first' hfirst => ?_
  refine folds_chain (.cons hfirst .nil) fun spaces spaces' hspaces => ?_
  refine folds_accepting (sign_folds (by decide)) ?_ (folds_pure .none)
  refine folds_accepting (keyword_folds "in") ?_ ?_
  · exact folds_bind collectionJoin_folds fun _ _ hjoin =>
      folds_pure (.some (addToLast_related hjoin hspaces))
  · exact folds_bind (space_folds hinner) fun _ _ hspace =>
      folds_pure (.some (List.rel_append hspaces (.cons hspace .nil)))

theorem orderClause_folds :
    (orderClause inner).Folds (orderClause inner)
      (List.Forall₂ (SortItem.Related C.expression)) := by
  refine folds_then (keyword_folds "by") fun _ _ => folds_separated (sign_folds (by decide)) ?_
  refine folds_bind (concatenation_folds hinner) fun sorted sorted' hsorted => ?_
  refine folds_bind (clause?_folds "collate" dottedName_folds)
    fun collation collation' hcollation => ?_
  refine folds_bind (folds_optional identifier_folds) fun ordering ordering' hordering => ?_
  refine folds_pure ⟨hsorted, ?_, map_of_rel (fun _ _ => And.left) hordering⟩
  rw [← map_of_rel (fun _ _ => id) hcollation, Option.map_map, Option.map_map]
  congr 1
  exact funext fun name => name.lowered_text.symm

theorem query_folds : (query inner).Folds (query inner) C.query := by
  have hbound := fun word => clause?_folds word (concatenation_folds hinner)
  refine folds_bind (clause?_folds "select" (selectClause_folds hinner)) fun _ _ hselect => ?_
  refine folds_then (keyword_folds "from") fun _ _ => ?_
  refine folds_bind (spaces_folds hinner) fun _ _ hspaces => ?_
  refine folds_bind (clause?_folds "where" (disjunction_folds hinner)) fun _ _ hrestriction => ?_
  refine folds_bind (clause?_folds "order" (orderClause_folds hinner)) fun _ _ horder => ?_
  refine folds_bind (hbound "limit") fun _ _ hlimit => ?_
  refine folds_bind (hbound "offset") fun _ _ hoffset => folds_pure ?_
  exact C.clauses hselect hspaces hrestriction horder hlimit hoffset

theorem Inner.Keeps.layer : inner.layer.Keeps C :=
  ⟨disjunction_folds hinner, negatable_folds hinner, concatenation_folds hinner,
    signed_folds hinner, query_folds hinner, instantiation_folds hinner⟩

end

theorem Inner.keeps_ofDepth (C : Congruence) (depth : Nat) : (Inner.ofDepth depth).Keeps C := by
  induction depth with
  | zero => exact ⟨folds_fail, folds_fail, folds_fail, folds_fail, folds_fail, folds_fail⟩
  | succ depth ih => exact ih.layer

/-! ## Statements -/

section

variable {C : Congruence} {inner : Inner} (hinner : inner.Keeps C)
include hinner

theorem update_folds : (update inner).Folds (update inner) (Statement.Related C) := by
  have hassignment :
      (assignment inner).Folds (assignment inner) (Assignment.Related C.expression) :=
    folds_bind dottedIdentifier_folds fun _ _ hpath =>
      folds_then (sign_folds (by decide)) fun _ _ =>
        folds_bind (concatenation_folds hinner) fun _ _ hvalue => folds_pure ⟨hpath, hvalue⟩
  refine folds_bind root_folds fun target target' htarget => ?_
  refine folds_then (keyword_folds "set") fun _ _ => ?_
  refine folds_bind (folds_separated (sign_folds (by decide)) hassignment) fun _ _ hvalues => ?_
  exact folds_bind (clause?_folds "where" (disjunction_folds hinner)) fun _ _ h =>
    folds_pure (.update htarget hvalues h)

theorem deletion_folds : (deletion inner).Folds (deletion inner) (Statement.Related C) := by
  refine folds_then (folds_accepts (keyword_folds "from")) fun _ _ => ?_
  refine folds_bind root_folds fun target target' htarget => ?_
  exact folds_bind (clause?_folds "where" (disjunction_folds hinner)) fun _ _ h =>
    folds_pure (.delete htarget h)

theorem insertion_folds : (insertion inner).Folds (insertion inner) (Statement.Related C) := by
  refine folds_then (keyword_folds "into") fun _ _ => folds_bind dottedName_folds ?_
  rintro target _ rfl
  refine folds_then (sign_folds (by decide)) fun _ _ => ?_
  refine folds_bind (folds_separated (sign_folds (by decide)) dottedIdentifier_folds)
    fun stateFields stateFields' hfields => ?_
  refine folds_then (sign_folds (by decide)) fun _ _ => ?_
  refine folds_looking (beginsWithWord_foldCase "select") ?_ folds_fail
  rw [← map_of_forall₂ (fun _ _ => id) hfields]
  exact folds_bind (query_folds hinner) fun _ _ hquery =>
    folds_pure (.insert target stateFields hquery)

theorem statement_folds : (statement inner).Folds (statement inner) (Statement.Related C) := by
  refine folds_then blanks_folds fun _ _ => ?_
  refine folds_accepting (exactKeyword_folds "update") (update_folds hinner) ?_
  refine folds_accepting (exactKeyword_folds "delete") (deletion_folds hinner) ?_
  refine folds_accepting (exactKeyword_folds "insert") (insertion_folds hinner) ?_
  exact folds_bind (query_folds hinner) fun _ _ h => folds_pure (.select h)

end

/-! ## Whole texts -/

open Report (QueryError)

/-- Two texts are read as related values, or both are rejected with one code at one place. -/
inductive ReadAlike {α β : Type} (R : α → β → Prop) :
    Except QueryError α → Except QueryError β → Prop where
  | read {value : α} {other : β} (h : R value other) : ReadAlike R (.ok value) (.ok other)
  | rejected {error error' : QueryError} (hcode : error.code = error'.code)
    (hplace : error.location? = error'.location?) : ReadAlike R (.error error) (.error error')

theorem rejection_foldCase (source rest : List Char) :
    (rejection source rest).code = (rejection (foldCase source) (foldCase rest)).code
      ∧ (rejection source rest).location?
        = (rejection (foldCase source) (foldCase rest)).location? := by
  unfold rejection
  simp only [trimStart_foldCase, utf8Length_foldCase, foldCase_isEmpty, Location.ofSpan,
    lineColumn_foldCase]
  split
  · exact ⟨rfl, rfl⟩
  · exact ⟨rfl, rfl⟩

theorem whole_folds {α β : Type} {R : α → β → Prop} {reader : Reader α} {small : Reader β}
    (h : reader.Folds small R) (source : List Char) :
    ReadAlike R (reader.whole source) (small.whole (foldCase source)) := by
  have hrejected : ∀ rest, ReadAlike R (.error (rejection source rest))
      (.error (rejection (foldCase source) (foldCase rest))) :=
    fun rest => .rejected (rejection_foldCase source rest).1 (rejection_foldCase source rest).2
  unfold Reader.whole
  rcases (h source).replies with ⟨value, other, rest, hread, hsmall, hvalue⟩ | ⟨rest, hread, hsmall⟩
  · simp only [hread, hsmall, trimStart_foldCase, foldCase_isEmpty]
    split
    · exact .read hvalue
    · exact hrejected rest
  · simp only [hread, hsmall]
    exact hrejected rest

theorem forText_foldCase (source : List Char) : forText (foldCase source) = forText source := by
  rw [forText, foldCase_length, ← forText]

end EntityQuery.Grammar

namespace EntityQuery.Phrase

open Grammar (ReadAlike)

/-- A text and the text in small letters are read as related statements. -/
theorem Statement.ofText_related (C : Congruence) (source : String) :
    ReadAlike (Statement.Related C) (Statement.ofText source)
      (Statement.ofText (Text.lowered source)) := by
  unfold Statement.ofText
  simp only [Text.lowered_toList, Grammar.forText_foldCase]
  exact Grammar.whole_folds (Grammar.statement_folds (Grammar.Inner.keeps_ofDepth C _)) _

theorem Expression.ofText_related (C : Congruence) (source : String) :
    ReadAlike C.expression (Expression.ofText source)
      (Expression.ofText (Text.lowered source)) := by
  unfold Expression.ofText
  simp only [Text.lowered_toList, Grammar.forText_foldCase]
  exact Grammar.whole_folds (Grammar.concatenation_folds (Grammar.Inner.keeps_ofDepth C _)) _

/-- What a congruence says of the first of two phrases holds of every statement that is read. -/
theorem Statement.related_of_read (C : Congruence) {source : String} {phrase : Statement}
    (h : Statement.ofText source = .ok phrase) : ∃ small, phrase.Related C small := by
  have hread := Statement.ofText_related C source
  rw [h] at hread
  generalize Statement.ofText (Text.lowered source) = small at hread
  cases hread with
  | read h => exact ⟨_, h⟩

end EntityQuery.Phrase

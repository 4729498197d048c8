import EntityQuery.Interpretation.Fault
import EntityQuery.Phrase.Tree
import EntityQuery.Proofs.Outcome
import EntityQuery.Resolved.Catalogue

/-!
# Faults of steps

What is proved about the failures of steps is stated for the faults that they fail with:
`Fails schema before step F` says that each of them satisfies `F`. Together with the rules on
outcomes, one rule for each way of putting steps together brings a claim about the faults of a step
down to claims about its parts.

Some faults are about the shape of a part of the phrase, at any depth: an operator with a wrong
number of operands, a function of a collection with a wrong number of arguments, `exists` or `in`
before something that is no query, and a character literal of no or several characters.

* `Statement.parts`, `Query.parts`, `Predicate.parts`, `Expression.parts`: what is written.
* `Part.Misshapes`: a part has the shape that a fault is about.
* `Fault.isInternal`, `Fault.isShape`: faults of the library itself, and faults about the shape of a
  phrase.
* `Fault.BlamedOn`: a fault that is no internal one; if it is about a shape, a part has that shape.
* `Step.Fails`: the faults of a step.
-/

/-! ## Parts of a phrase -/

namespace EntityQuery

namespace Phrase

/-- An expression or a predicate that is written in a phrase. -/
inductive Part where
  | expression (written : Expression)
  | predicate (written : Predicate)

mutual

/-- The expression with all that is written in it. -/
def Expression.parts : Expression → List Part
  | .indexed base index remainder => .expression (.indexed base index remainder) :: index.parts
  | .arithmetic operator operands =>
    .expression (.arithmetic operator operands) :: expressionsParts operands
  | .concatenation operands => .expression (.concatenation operands) :: expressionsParts operands
  | .unary sign operand => .expression (.unary sign operand) :: operand.parts
  | .grouped inner => .expression (.grouped inner) :: inner.parts
  | .call name generic distinct star arguments =>
    .expression (.call name generic distinct star arguments) :: expressionsParts arguments
  | .simpleCase operand whens otherwise =>
    .expression (.simpleCase operand whens otherwise)
      :: (operand.parts ++ simpleWhensParts whens ++ optionalParts otherwise)
  | .searchedCase whens otherwise =>
    .expression (.searchedCase whens otherwise)
      :: (searchedWhensParts whens ++ optionalParts otherwise)
  | .subquery query => .expression (.subquery query) :: query.parts
  | leaf => [.expression leaf]

def expressionsParts : List Expression → List Part
  | [] => []
  | first :: rest => first.parts ++ expressionsParts rest

def optionalParts : Option Expression → List Part
  | none => []
  | some written => written.parts

def SimpleWhen.parts : SimpleWhen → List Part
  | .mk value result => value.parts ++ result.parts

def simpleWhensParts : List SimpleWhen → List Part
  | [] => []
  | first :: rest => first.parts ++ simpleWhensParts rest

def SearchedWhen.parts : SearchedWhen → List Part
  | .mk condition result => condition.parts ++ result.parts

def searchedWhensParts : List SearchedWhen → List Part
  | [] => []
  | first :: rest => first.parts ++ searchedWhensParts rest

/-- The predicate with all that is written in it. -/
def Predicate.parts : Predicate → List Part
  | .and left right => .predicate (.and left right) :: (left.parts ++ right.parts)
  | .or left right => .predicate (.or left right) :: (left.parts ++ right.parts)
  | .not inner => .predicate (.not inner) :: inner.parts
  | .grouped inner => .predicate (.grouped inner) :: inner.parts
  | .comparison operator left right =>
    .predicate (.comparison operator left right) :: (left.parts ++ right.parts)
  | .between tested lower upper negated =>
    .predicate (.between tested lower upper negated)
      :: (tested.parts ++ lower.parts ++ upper.parts)
  | .like matched pattern escape negated =>
    .predicate (.like matched pattern escape negated)
      :: (matched.parts ++ pattern.parts ++ optionalParts escape)
  | .inList tested items negated =>
    .predicate (.inList tested items negated) :: (tested.parts ++ expressionsParts items)
  | .inSubquery tested operand negated =>
    .predicate (.inSubquery tested operand negated) :: (tested.parts ++ operand.parts)
  | .isNull tested negated => .predicate (.isNull tested negated) :: tested.parts
  | .isEmpty tested negated => .predicate (.isEmpty tested negated) :: tested.parts
  | .memberOf element collection negated =>
    .predicate (.memberOf element collection negated) :: (element.parts ++ collection.parts)
  | .existence operand negated => .predicate (.existence operand negated) :: operand.parts

def restrictionParts : Option Predicate → List Part
  | none => []
  | some written => written.parts

def SelectExpression.parts : SelectExpression → List Part
  | .instantiation _ items => itemsParts items
  | .object _ => []
  | .expression written => written.parts

def itemsParts : List SelectItem → List Part
  | [] => []
  | .mk written _ :: rest => written.parts ++ itemsParts rest

def clauseParts : Option SelectClause → List Part
  | none => []
  | some (.mk _ items) => itemsParts items

def Join.parts : Join → List Part
  | .qualified _ _ _ _ condition => restrictionParts condition
  | _ => []

def joinsParts : List Join → List Part
  | [] => []
  | first :: rest => first.parts ++ joinsParts rest

def Space.parts : Space → List Part
  | .mk _ hanging => joinsParts hanging

def spacesParts : List Space → List Part
  | [] => []
  | first :: rest => first.parts ++ spacesParts rest

def SortItem.parts : SortItem → List Part
  | .mk written _ _ => written.parts

def sortItemsParts : List SortItem → List Part
  | [] => []
  | first :: rest => first.parts ++ sortItemsParts rest

def orderParts : Option (List SortItem) → List Part
  | none => []
  | some items => sortItemsParts items

/-- What is written in the clauses of a query. -/
def Query.parts : Query → List Part
  | .mk select written condition ordering limit offset =>
    clauseParts select ++ spacesParts written ++ restrictionParts condition ++ orderParts ordering
      ++ optionalParts limit ++ optionalParts offset

end

/-- What is written in a statement. -/
def Statement.parts : Statement → List Part
  | .select query => query.parts
  | .update _ assignments condition =>
    assignments.flatMap (fun assignment => assignment.value.parts) ++ restrictionParts condition
  | .delete _ condition => restrictionParts condition
  | .insert _ _ query => query.parts

def Expression.isSubquery : Expression → Bool
  | .subquery _ => true
  | _ => false

/-- The part has the shape that the fault is about. -/
def Part.Misshapes : Part → Interpretation.Fault → Prop
  | .expression (.arithmetic _ operands), .operandCount .arithmetic count =>
    operands.length = count ∧ count ≠ 2
  | .expression (.concatenation operands), .operandCount .concatenation count =>
    operands.length = count ∧ count ≠ 2
  | .expression (.call name false _ _ arguments), .argumentCount function count =>
    CollectionFunction.ofName? name = some function ∧ arguments.length = count ∧ count ≠ 1
  | .expression (.literal token), .literal (.characterCount text) =>
    token.kind = .character ∧ token.text = text ∧ text.toList.length ≠ 1
  | .predicate (.inSubquery _ operand _), .membershipOperand => operand.isSubquery = false
  | .predicate (.existence operand _), .existenceOperand => operand.isSubquery = false
  | _, _ => False

end Phrase
end EntityQuery

/-! ## Faults -/

namespace EntityQuery.Interpretation

namespace Fault

/-- The library lost track of its from clauses, or asked for a join that makes no sense. -/
def isInternal : Fault → Bool
  | outsideClauses _ => true
  | implicitJoinFetched _ => true
  | implicitJoinAliased _ => true
  | rootPresent _ _ => true
  | joinWithoutRoot _ => true
  | spaceWithoutRoot => true
  | noOpenClause => true
  | unknownSpace => true
  | bulkTargetCount => true
  | _ => false

/-- The phrase has a shape that is not expected. -/
def isShape : Fault → Bool
  | operandCount _ _ => true
  | argumentCount _ _ => true
  | existenceOperand => true
  | membershipOperand => true
  | literal (.characterCount _) => true
  | _ => false

/-- The fault is no internal one, and a fault about a shape is about the shape of a part. -/
structure BlamedOn (parts : List Phrase.Part) (fault : Fault) : Prop where
  regular : fault.isInternal = false
  part : fault.isShape = true → ∃ part ∈ parts, part.Misshapes fault

/-- A fault about neither is blamed on nothing. -/
theorem blamed {parts : List Phrase.Part} {fault : Fault}
    (h : (fault.isInternal || fault.isShape) = false) : fault.BlamedOn parts := by
  obtain ⟨hregular, hshape⟩ := Bool.or_eq_false_iff.mp h
  exact ⟨hregular, fun hshaped => absurd (hshape.symm.trans hshaped) Bool.false_ne_true⟩

/-- A fault about the shape of a part. -/
theorem blamed_part {parts : List Phrase.Part} {fault : Fault} {part : Phrase.Part}
    (hregular : fault.isInternal = false) (hmem : part ∈ parts) (h : part.Misshapes fault) :
    fault.BlamedOn parts :=
  ⟨hregular, fun _ => ⟨part, hmem, h⟩⟩

end Fault

namespace Step

/-- Every fault that a step fails with satisfies `F`. -/
def Fails {α : Type} (schema : Schema) (before : Context) (step : Step α) (F : Fault → Prop) :
    Prop :=
  ∀ fault after, step.run' schema before = (.error fault, after) → F fault

variable {α β : Type} {schema : Schema} {before : Context} {F : Fault → Prop}

/-! ## Putting steps together -/

theorem fails_pure {value : α} : Fails schema before (pure value) F := by
  intro fault after hrun
  cases hrun

theorem fails_throw {fault : Fault} (h : F fault) :
    Fails schema before (throw fault : Step α) F := by
  intro failed after hrun
  cases hrun
  exact h

/-- The second step starts where the first one ends. -/
theorem fails_bind {Q : α → Context → Prop} {first : Step α} {second : α → Step β}
    (hends : Ends schema before first Q) (hfirst : Fails schema before first F)
    (hsecond : ∀ value between, Q value between → Fails schema between (second value) F) :
    Fails schema before (first >>= second) F := by
  intro fault after hrun
  rw [run_bind] at hrun
  cases hone : first.run' schema before with
  | mk outcome between =>
    rw [hone] at hrun
    cases outcome with
    | error failed =>
      cases hrun
      exact hfirst fault after hone
    | ok value => exact hsecond value between (hends value between hone) fault after hrun

/-- Outcomes and faults of two steps at once. -/
theorem ends_fails_bind {Q : α → Context → Prop} {R : β → Context → Prop} {first : Step α}
    {second : α → Step β} (hends : Ends schema before first Q)
    (hfirst : Fails schema before first F)
    (hsecond : ∀ value between, Q value between →
      Ends schema between (second value) R ∧ Fails schema between (second value) F) :
    Ends schema before (first >>= second) R ∧ Fails schema before (first >>= second) F :=
  ⟨ends_bind hends fun value between h => (hsecond value between h).1,
    fails_bind hends hfirst fun value between h => (hsecond value between h).2⟩

/-- The second step fails so wherever it starts. -/
theorem fails_then {first : Step α} {second : α → Step β} (hfirst : Fails schema before first F)
    (hsecond : ∀ value {between : Context}, Fails schema between (second value) F) :
    Fails schema before (first >>= second) F :=
  fails_bind (Q := fun _ _ => True) (fun _ _ _ => trivial) hfirst fun value _ _ => hsecond value

theorem fails_throw_bind {fault : Fault} {second : α → Step β} (h : F fault) :
    Fails schema before ((throw fault : Step α) >>= second) F :=
  fails_bind (Q := fun _ _ => False) (ends_throw fault) (fails_throw h) fun _ _ h => h.elim

theorem fails_get_bind {second : Context → Step β} (h : Fails schema before (second before) F) :
    Fails schema before (get >>= second) F :=
  h

theorem fails_read_bind {second : Schema → Step β} (h : Fails schema before (second schema) F) :
    Fails schema before (read >>= second) F :=
  h

theorem fails_modify {change : Context → Context} : Fails schema before (modify change) F := by
  intro fault after hrun
  cases hrun

theorem fails_modify_bind {change : Context → Context} {second : Unit → Step β}
    (h : Fails schema (change before) (second ()) F) :
    Fails schema before (modify change >>= second) F :=
  h

/-- Each item is visited in a state that satisfies the invariant `I`. -/
theorem fails_mapM {items : List β} {visit : β → Step α} (I : Context → Prop) (hstart : I before)
    (hvisit : ∀ item ∈ items, ∀ context, I context →
      Ends schema context (visit item) (fun _ after => I after)
        ∧ Fails schema context (visit item) F) : Fails schema before (items.mapM visit) F := by
  induction items generalizing before with
  | nil =>
    rw [List.mapM_nil]
    exact fails_pure
  | cons item items ih =>
    rw [List.mapM_cons]
    obtain ⟨hends, hfails⟩ := hvisit item List.mem_cons_self before hstart
    refine fails_bind hends hfails fun value between hbetween => fails_then ?_ fun _ => fails_pure
    exact ih hbetween fun other hother => hvisit other (List.mem_cons_of_mem _ hother)

/-! ## Elementary steps -/

theorem fails_change {change : Context → Except Fault Context}
    (h : ∀ fault, change before = .error fault → F fault) :
    Fails schema before (Step.change change) F := by
  refine fails_get_bind ?_
  cases hchange : change before with
  | error fault => exact fails_throw (h fault hchange)
  | ok after =>
    intro fault final hrun
    cases hrun

theorem fails_comply {violated : Bool} {breach : Breach} (h : F (.strict breach)) :
    Fails schema before (comply violated breach) F := by
  refine fails_read_bind ?_
  split
  · exact fails_throw h
  · exact fails_pure

theorem fails_ofExcept {check : Except Fault α} (h : ∀ fault, check = .error fault → F fault) :
    Fails schema before (ofExcept check) F := by
  cases check with
  | error fault => exact fails_throw (h fault rfl)
  | ok value => exact fails_pure

theorem fails_under {resolver : Resolver} {step : Step α}
    (h : Fails schema (before.pushResolver resolver) step F) :
    Fails schema before (under resolver step) F := by
  refine fails_modify_bind (fails_bind (ends_attempt (Q := fun outcome after =>
    step.run' schema (before.pushResolver resolver) = (outcome, after)) rfl)
    (fun fault after hrun => (by cases hrun)) fun outcome after hrun => fails_modify_bind ?_)
  cases outcome with
  | error fault => exact fails_throw (h fault after hrun)
  | ok value => exact fails_pure

/-- A level fails with its steps, or when a space of it cannot be finished. -/
theorem fails_onLevel {Q : α → Context → Prop} {step : Step α}
    (hends : Ends schema before.openLevel step Q) (hfails : Fails schema before.openLevel step F)
    (hclose : ∀ value after, Q value after → ∀ fault,
      Levels.close (after.levels.headD []) = .error fault → F fault) :
    Fails schema before (onLevel step) F := by
  refine fails_modify_bind (fails_bind (ends_attempt (Q := fun outcome after =>
    step.run' schema before.openLevel = (outcome, after)) rfl)
    (fun fault after hrun => (by cases hrun))
    fun outcome after hrun => fails_get_bind (fails_modify_bind ?_))
  cases outcome with
  | error fault => exact fails_throw (hfails fault after hrun)
  | ok value =>
    dsimp only
    cases hspaces : Levels.close (after.levels.headD []) with
    | error fault => exact fails_throw (hclose value after (hends value after hrun) fault hspaces)
    | ok spaces => exact fails_pure

theorem fails_updateSpace {id : SpaceId} {change : OpenSpace → Except Fault OpenSpace}
    (h : ∀ fault, before.levels.update change id = .error fault → F fault) :
    Fails schema before (updateSpace id change) F := by
  refine fails_change fun fault hchange => h fault ?_
  cases hupdate : before.levels.update change id with
  | error failed =>
    rw [hupdate] at hchange
    cases hchange
    rfl
  | ok levels =>
    rw [hupdate] at hchange
    cases hchange

/-- A variable that is bound already is the only fault of a binding. -/
theorem fails_registerElement {element : FromElement}
    (h : ∀ existing, F (.aliasBound existing element)) :
    Fails schema before (registerElement element) F := by
  refine fails_modify_bind (fails_change fun fault hchange => ?_)
  change (before.trail.bind element).map _ = .error fault at hchange
  unfold Trail.bind at hchange
  split at hchange
  · cases hchange
    exact h _
  · cases hchange

end Step
end EntityQuery.Interpretation

import EntityQuery.Proofs.MappedLeaves
import EntityQuery.Resolved.Traversal

/-!
# Leaves that are visited

A traversal that only does something at leaves comes to every occurrence of a leaf once, in the
order of the leaves, and hands back the tree with the leaves that it was given. This holds in every
monad, so whatever a visit does is done once for each occurrence and nothing else is done.

* `told`: an outcome that comes after a call for each of some leaves.
* `calling`: the traversal that calls at each leaf and exchanges it.
* `Statement.traverse_calling`: the calls and the outcome of a traversal.
* `Statement.traverse_leaves`: traversals that are told what to do at one kind of leaf.
-/

namespace EntityQuery.Resolved

variable {m : Type → Type} [Monad m] {α β : Type}

/-- The value, after a call for each of the leaves. -/
def told (call : Leaf → m Unit) (leaves : List Leaf) (value : α) : m α := do
  leaves.forM call
  return value

/-- The traversal that calls at each leaf and exchanges it. -/
def calling (call : Leaf → m Unit) (change : LeafMap) : Traversal m where
  onElement := fun bound => told call [.element bound] (change.element bound)
  onLiteral := fun token => told call [.literal token] (change.literal token)
  onParameter := fun written => told call [.parameter written] (change.parameter written)

section

variable (call : Leaf → m Unit) (change : LeafMap)

theorem onElement_calling (bound : FromElement) :
    (calling call change).onElement bound = told call [.element bound] (change.element bound) :=
  rfl

theorem onLiteral_calling (token : Literal) :
    (calling call change).onLiteral token = told call [.literal token] (change.literal token) :=
  rfl

theorem onParameter_calling (written : Phrase.Parameter) :
    (calling call change).onParameter written
      = told call [.parameter written] (change.parameter written) :=
  rfl

end

section

variable [LawfulMonad m] (call : Leaf → m Unit) (change : LeafMap)

/-! ## Calls in a row -/

theorem told_nil (value : α) : told call [] value = pure value := by
  simp [told]

theorem told_pure (leaves : List Leaf) (value : α) (next : α → β) :
    (told call leaves value >>= fun outcome => pure (next outcome))
      = told call leaves (next value) := by
  simp [told]

/-- The calls of two visits are made one after the other. -/
theorem told_bind (leaves more : List Leaf) (value : α) (next : α → β) :
    (told call leaves value >>= fun outcome => told call more (next outcome))
      = told call (leaves ++ more) (next value) := by
  simp [told, List.forM_append]

/-- Entering and leaving a node does nothing. -/
theorem inside_calling (kind : NodeKind) (visit : m α) :
    (calling call change).inside kind visit = visit := by
  simp [Traversal.inside, calling]

/-! ## Trees -/

mutual

theorem Expression.traverse_calling : ∀ node : Expression,
    node.traverse (calling call change) = told call node.leaves (node.mapped change)
  | .literal _ => by
    simp only [Expression.traverse, inside_calling, onLiteral_calling, told_pure]
    rfl
  | .parameter _ => by
    simp only [Expression.traverse, inside_calling, onParameter_calling, told_pure]
    rfl
  | .element _ => by
    simp only [Expression.traverse, inside_calling, onElement_calling, told_pure]
    rfl
  | .entityType _ => by
    rw [Expression.traverse, inside_calling]
    exact (told_nil call _).symm
  | .reference attained => by
    simp only [Expression.traverse, inside_calling, attained.traverse_calling, told_pure]
    rfl
  | .indexed attained => by
    simp only [Expression.traverse, inside_calling, attained.traverse_calling, told_pure]
    rfl
  | .constant _ _ _ => by
    rw [Expression.traverse, inside_calling]
    exact (told_nil call _).symm
  | .mapEntry _ _ _ => by
    simp only [Expression.traverse, inside_calling, onElement_calling, told_pure]
    rfl
  | .collectionFunction _ argument _ => by
    simp only [Expression.traverse, inside_calling, argument.traverse_calling, told_pure]
    rfl
  | .call _ _ _ _ arguments _ => by
    simp only [Expression.traverse, inside_calling, traverseExpressions_calling arguments,
      told_pure]
    rfl
  | .arithmetic _ left right _ => by
    simp only [Expression.traverse, inside_calling, left.traverse_calling, right.traverse_calling,
      told_pure, told_bind]
    rfl
  | .concatenation left right => by
    simp only [Expression.traverse, inside_calling, left.traverse_calling, right.traverse_calling,
      told_pure, told_bind]
    rfl
  | .unary _ operand => by
    simp only [Expression.traverse, inside_calling, operand.traverse_calling, told_pure]
    rfl
  | .simpleCase operand whens otherwise _ => by
    simp only [Expression.traverse, inside_calling, operand.traverse_calling,
      traverseSimpleWhens_calling whens, traverseOptional_calling otherwise, told_pure, told_bind,
      List.append_assoc, Expression.leaves]
    rfl
  | .searchedCase whens otherwise _ => by
    simp only [Expression.traverse, inside_calling, traverseSearchedWhens_calling whens,
      traverseOptional_calling otherwise, told_pure, told_bind]
    rfl
  | .subquery nested => by
    simp only [Expression.traverse, inside_calling, nested.traverse_calling, told_pure]
    rfl
  | .selection _ _ _ => by
    rw [Expression.traverse, inside_calling]
    exact (told_nil call _).symm
  | .instantiation _ arguments => by
    simp only [Expression.traverse, inside_calling, traverseArguments_calling arguments, told_pure]
    rfl

theorem AttributeReference.traverse_calling : ∀ node : AttributeReference,
    node.traverse (calling call change) = told call node.leaves (node.mapped change)
  | .mk source _ _ => by
    simp only [AttributeReference.traverse, inside_calling, source.traverse_calling, told_pure]
    rfl

theorem PathSource.traverse_calling : ∀ node : PathSource,
    node.traverse (calling call change) = told call node.leaves (node.mapped change)
  | .element _ => by
    simp only [PathSource.traverse, onElement_calling, told_pure]
    rfl
  | .indexed attained => by
    simp only [PathSource.traverse, attained.traverse_calling, told_pure]
    rfl
  | .reference attained => by
    simp only [PathSource.traverse, attained.traverse_calling, told_pure]
    rfl

theorem IndexedReference.traverse_calling : ∀ node : IndexedReference,
    node.traverse (calling call change) = told call node.leaves (node.mapped change)
  | .mk collection index _ => by
    simp only [IndexedReference.traverse, inside_calling, collection.traverse_calling,
      index.traverse_calling, told_pure, told_bind]
    rfl

theorem traverseExpressions_calling : ∀ nodes : List Expression,
    traverseExpressions (calling call change) nodes
      = told call (expressionLeaves nodes) (expressionsMapped change nodes)
  | [] => (told_nil call []).symm
  | node :: nodes => by
    simp only [traverseExpressions, node.traverse_calling, traverseExpressions_calling nodes,
      told_pure, told_bind]
    rfl

theorem traverseOptional_calling : ∀ nodes : Option Expression,
    traverseOptional (calling call change) nodes
      = told call (optionalLeaves nodes) (optionalMapped change nodes)
  | none => (told_nil call none).symm
  | some node => by
    rw [traverseOptional, node.traverse_calling, told_pure]
    rfl

theorem SimpleWhen.traverse_calling : ∀ node : SimpleWhen,
    node.traverse (calling call change) = told call node.leaves (node.mapped change)
  | .mk value result => by
    simp only [SimpleWhen.traverse, value.traverse_calling, result.traverse_calling, told_pure,
      told_bind]
    rfl

theorem traverseSimpleWhens_calling : ∀ nodes : List SimpleWhen,
    traverseSimpleWhens (calling call change) nodes
      = told call (simpleWhenLeaves nodes) (simpleWhensMapped change nodes)
  | [] => (told_nil call []).symm
  | node :: nodes => by
    simp only [traverseSimpleWhens, node.traverse_calling, traverseSimpleWhens_calling nodes,
      told_pure, told_bind]
    rfl

theorem SearchedWhen.traverse_calling : ∀ node : SearchedWhen,
    node.traverse (calling call change) = told call node.leaves (node.mapped change)
  | .mk condition result => by
    simp only [SearchedWhen.traverse, condition.traverse_calling, result.traverse_calling,
      told_pure, told_bind]
    rfl

theorem traverseSearchedWhens_calling : ∀ nodes : List SearchedWhen,
    traverseSearchedWhens (calling call change) nodes
      = told call (searchedWhenLeaves nodes) (searchedWhensMapped change nodes)
  | [] => (told_nil call []).symm
  | node :: nodes => by
    simp only [traverseSearchedWhens, node.traverse_calling, traverseSearchedWhens_calling nodes,
      told_pure, told_bind]
    rfl

theorem Argument.traverse_calling : ∀ node : Argument,
    node.traverse (calling call change) = told call node.leaves (node.mapped change)
  | .mk value _ => by
    simp only [Argument.traverse, value.traverse_calling, told_pure]
    rfl

theorem traverseArguments_calling : ∀ nodes : List Argument,
    traverseArguments (calling call change) nodes
      = told call (argumentLeaves nodes) (argumentsMapped change nodes)
  | [] => (told_nil call []).symm
  | node :: nodes => by
    simp only [traverseArguments, node.traverse_calling, traverseArguments_calling nodes, told_pure,
      told_bind]
    rfl

theorem Predicate.traverse_calling : ∀ node : Predicate,
    node.traverse (calling call change) = told call node.leaves (node.mapped change)
  | .and left right => by
    simp only [Predicate.traverse, inside_calling, left.traverse_calling, right.traverse_calling,
      told_pure, told_bind]
    rfl
  | .or left right => by
    simp only [Predicate.traverse, inside_calling, left.traverse_calling, right.traverse_calling,
      told_pure, told_bind]
    rfl
  | .not inner => by
    simp only [Predicate.traverse, inside_calling, inner.traverse_calling, told_pure]
    rfl
  | .grouped inner => by
    simp only [Predicate.traverse, inside_calling, inner.traverse_calling, told_pure]
    rfl
  | .comparison _ left right => by
    simp only [Predicate.traverse, inside_calling, left.traverse_calling, right.traverse_calling,
      told_pure, told_bind]
    rfl
  | .between tested lower upper _ => by
    simp only [Predicate.traverse, inside_calling, tested.traverse_calling, lower.traverse_calling,
      upper.traverse_calling, told_pure, told_bind, List.append_assoc, Predicate.leaves]
    rfl
  | .like matched pattern escape _ => by
    simp only [Predicate.traverse, inside_calling, matched.traverse_calling,
      pattern.traverse_calling, traverseOptional_calling escape, told_pure, told_bind,
      List.append_assoc, Predicate.leaves]
    rfl
  | .inList tested items _ => by
    simp only [Predicate.traverse, inside_calling, tested.traverse_calling,
      traverseExpressions_calling items, told_pure, told_bind]
    rfl
  | .inSubquery tested nested _ => by
    simp only [Predicate.traverse, inside_calling, tested.traverse_calling, nested.traverse_calling,
      told_pure, told_bind]
    rfl
  | .isNull tested _ => by
    simp only [Predicate.traverse, inside_calling, tested.traverse_calling, told_pure]
    rfl
  | .isEmpty collection _ => by
    simp only [Predicate.traverse, inside_calling, collection.traverse_calling, told_pure]
    rfl
  | .memberOf plural other _ => by
    simp only [Predicate.traverse, inside_calling, plural.traverse_calling, other.traverse_calling,
      told_pure, told_bind]
    rfl
  | .existence nested _ => by
    simp only [Predicate.traverse, inside_calling, nested.traverse_calling, told_pure]
    rfl

theorem traverseRestriction_calling : ∀ nodes : Option Predicate,
    traverseRestriction (calling call change) nodes
      = told call (restrictionLeaves nodes) (restrictionMapped change nodes)
  | none => (told_nil call none).symm
  | some node => by
    rw [traverseRestriction, node.traverse_calling, told_pure]
    rfl

theorem Subquery.traverse_calling : ∀ node : Subquery,
    node.traverse (calling call change) = told call node.leaves (node.mapped change)
  | .mk select _ => by
    simp only [Subquery.traverse, inside_calling, select.traverse_calling, told_pure]
    rfl

theorem Selection.traverse_calling : ∀ node : Selection,
    node.traverse (calling call change) = told call node.leaves (node.mapped change)
  | .mk value _ => by
    simp only [Selection.traverse, inside_calling, value.traverse_calling, told_pure]
    rfl

theorem traverseSelections_calling : ∀ nodes : List Selection,
    traverseSelections (calling call change) nodes
      = told call (selectionLeaves nodes) (selectionsMapped change nodes)
  | [] => (told_nil call []).symm
  | node :: nodes => by
    simp only [traverseSelections, node.traverse_calling, traverseSelections_calling nodes,
      told_pure, told_bind]
    rfl

theorem Join.traverse_calling : ∀ node : Join,
    node.traverse (calling call change) = told call node.leaves (node.mapped change)
  | .mk _ condition => by
    simp only [Join.traverse, inside_calling, onElement_calling,
      traverseRestriction_calling condition, told_pure, told_bind]
    rfl

theorem traverseJoins_calling : ∀ nodes : List Join,
    traverseJoins (calling call change) nodes
      = told call (joinLeaves nodes) (joinsMapped change nodes)
  | [] => (told_nil call []).symm
  | node :: nodes => by
    simp only [traverseJoins, node.traverse_calling, traverseJoins_calling nodes, told_pure,
      told_bind]
    rfl

theorem Space.traverse_calling : ∀ node : Space,
    node.traverse (calling call change) = told call node.leaves (node.mapped change)
  | .mk _ joins => by
    simp only [Space.traverse, inside_calling, onElement_calling, traverseJoins_calling joins,
      told_pure, told_bind]
    rfl

theorem traverseSpaces_calling : ∀ nodes : List Space,
    traverseSpaces (calling call change) nodes
      = told call (spaceLeaves nodes) (spacesMapped change nodes)
  | [] => (told_nil call []).symm
  | node :: nodes => by
    simp only [traverseSpaces, node.traverse_calling, traverseSpaces_calling nodes, told_pure,
      told_bind]
    rfl

theorem SortItem.traverse_calling : ∀ node : SortItem,
    node.traverse (calling call change) = told call node.leaves (node.mapped change)
  | .mk value _ _ => by
    simp only [SortItem.traverse, inside_calling, value.traverse_calling, told_pure]
    rfl

theorem traverseSortItems_calling : ∀ nodes : List SortItem,
    traverseSortItems (calling call change) nodes
      = told call (sortLeaves nodes) (sortItemsMapped change nodes)
  | [] => (told_nil call []).symm
  | node :: nodes => by
    simp only [traverseSortItems, node.traverse_calling, traverseSortItems_calling nodes, told_pure,
      told_bind]
    rfl

theorem traverseOrder_calling : ∀ nodes : Option (List SortItem),
    traverseOrder (calling call change) nodes
      = told call (orderLeaves nodes) (orderMapped change nodes)
  | none => (told_nil call none).symm
  | some nodes => by
    rw [traverseOrder, inside_calling, traverseSortItems_calling nodes, told_pure]
    rfl

theorem Select.traverse_calling : ∀ node : Select,
    node.traverse (calling call change) = told call node.leaves (node.mapped change)
  | .mk spaces _ selections condition order limit offset => by
    simp only [Select.traverse, inside_calling, traverseSpaces_calling spaces,
      traverseSelections_calling selections, traverseRestriction_calling condition,
      traverseOrder_calling order, traverseOptional_calling limit, traverseOptional_calling offset,
      told_pure, told_bind, List.append_assoc, Select.leaves]
    rfl

end

/-- Visits in a row make their calls in a row. -/
theorem mapM_calling {visit : α → m β} {leaves : α → List Leaf} {outcome : α → β}
    (h : ∀ node, visit node = told call (leaves node) (outcome node)) (nodes : List α) :
    nodes.mapM visit = told call (nodes.flatMap leaves) (nodes.map outcome) := by
  induction nodes with
  | nil => exact (told_nil call []).symm
  | cons node nodes ih =>
    simp only [List.mapM_cons, h, ih, told_pure, told_bind]
    rfl

theorem Assignment.traverse_calling (node : Assignment) :
    node.traverse (calling call change) = told call node.leaves (node.mapped change) := by
  simp only [Assignment.traverse, inside_calling, node.target.traverse_calling,
    node.value.traverse_calling, told_pure, told_bind]
  rfl

/-- A traversal calls at each occurrence of a leaf once, and exchanges the leaves. -/
theorem Statement.traverse_calling (statement : Statement) :
    statement.traverse (calling call change)
      = told call statement.leaves (statement.mapped change) := by
  cases statement with
  | select query =>
    simp only [Statement.traverse, inside_calling, query.traverse_calling, told_pure]
    rfl
  | update target assignments condition =>
    have hassignments := mapM_calling call (Assignment.traverse_calling call change) assignments
    simp only [Statement.traverse, inside_calling, target.traverse_calling, hassignments,
      traverseRestriction_calling call change condition, told_pure, told_bind, Statement.leaves,
      List.append_assoc]
    rfl
  | delete target condition =>
    simp only [Statement.traverse, inside_calling, target.traverse_calling,
      traverseRestriction_calling call change condition, told_pure, told_bind]
    rfl
  | insert target stateFields query =>
    have hfields := mapM_calling call (AttributeReference.traverse_calling call change) stateFields
    simp only [Statement.traverse, inside_calling, target.traverse_calling, hfields,
      query.traverse_calling, told_pure, told_bind, Statement.leaves, List.append_assoc]
    rfl

end

/-! ## One kind of leaf -/

namespace Leaf

def element? : Leaf → Option FromElement
  | element bound => some bound
  | _ => none

def literal? : Leaf → Option Literal
  | literal token => some token
  | _ => none

def parameter? : Leaf → Option Phrase.Parameter
  | parameter written => some written
  | _ => none

end Leaf

/-- A call for the leaves that `part?` picks, and none for the others. -/
def callFor (part? : Leaf → Option α) (call : α → m Unit) (leaf : Leaf) : m Unit :=
  match part? leaf with
  | some part => call part
  | none => pure ()

section

variable [LawfulMonad m]

theorem forM_callFor (part? : Leaf → Option α) (call : α → m Unit) (leaves : List Leaf) :
    leaves.forM (callFor part? call) = (leaves.filterMap part?).forM call := by
  induction leaves with
  | nil => rfl
  | cons leaf leaves ih =>
    rw [List.forM_eq_forM, List.forM_eq_forM] at ih
    cases hpart : part? leaf with
    | none => simp [callFor, hpart, ih]
    | some part => simp [callFor, hpart, ih]

theorem told_callFor (part? : Leaf → Option α) (call : α → m Unit) (leaves : List Leaf)
    (value : β) :
    told (callFor part? call) leaves value
      = do
        (leaves.filterMap part?).forM call
        return value := by
  rw [told, forM_callFor]

theorem calling_element (call : FromElement → m Unit) (change : FromElement → FromElement) :
    calling (callFor Leaf.element? call) { element := change }
      = { onElement := fun bound => do
            call bound
            return change bound } := by
  simp [calling, told, callFor, Leaf.element?]

theorem calling_literal (call : Literal → m Unit) (change : Literal → Literal) :
    calling (callFor Leaf.literal? call) { literal := change }
      = { onLiteral := fun token => do
            call token
            return change token } := by
  simp [calling, told, callFor, Leaf.literal?]

theorem calling_parameter (call : Phrase.Parameter → m Unit)
    (change : Phrase.Parameter → Phrase.Parameter) :
    calling (callFor Leaf.parameter? call) { parameter := change }
      = { onParameter := fun written => do
            call written
            return change written } := by
  simp [calling, told, callFor, Leaf.parameter?]

theorem told_silent (leaves : List Leaf) (value : α) :
    told (fun _ => (pure () : m Unit)) leaves value = pure value := by
  induction leaves with
  | nil => exact told_nil _ value
  | cons leaf leaves ih => simpa [told] using ih

theorem calling_nothing : calling (fun _ => (pure () : m Unit)) {} = Traversal.plain := by
  simp [calling, told, Traversal.plain]

/-- A traversal that is told what to do at one kind of leaf makes one call for each occurrence of
such a leaf, in their order, and hands back the statement in which these leaves are exchanged; the
list of leaves shows that it is each of them and no other leaf. With nothing to do it hands back the
statement as it is. -/
theorem Statement.traverse_leaves (statement : Statement) :
    (∀ (call : Literal → m Unit) (change : Literal → Literal),
      statement.traverse { onLiteral := fun token => do
          call token
          return change token }
        = do
          (statement.leaves.filterMap Leaf.literal?).forM call
          return statement.mapped { literal := change })
      ∧ (∀ (call : Phrase.Parameter → m Unit) (change : Phrase.Parameter → Phrase.Parameter),
        statement.traverse { onParameter := fun written => do
            call written
            return change written }
          = do
            (statement.leaves.filterMap Leaf.parameter?).forM call
            return statement.mapped { parameter := change })
      ∧ (∀ (call : FromElement → m Unit) (change : FromElement → FromElement),
        statement.traverse { onElement := fun bound => do
            call bound
            return change bound }
          = do
            (statement.leaves.filterMap Leaf.element?).forM call
            return statement.mapped { element := change })
      ∧ statement.traverse Traversal.plain = (pure statement : m Statement)
      ∧ ∀ change : LeafMap,
        (statement.mapped change).leaves = statement.leaves.map change.leaf := by
  refine ⟨fun call change => ?_, fun call change => ?_, fun call change => ?_, ?_,
    fun change => statement.leaves_mapped⟩
  · rw [← calling_literal, statement.traverse_calling, told_callFor]
  · rw [← calling_parameter, statement.traverse_calling, told_callFor]
  · rw [← calling_element, statement.traverse_calling, told_callFor]
  · rw [← calling_nothing, statement.traverse_calling, statement.mapped_id, told_silent]

end

/-- The query that selects a parameter and is limited by another one. -/
def twoParameters (first last : Phrase.Parameter) : Statement :=
  .select (.mk [] false [.mk (.parameter first) none] none none (some (.parameter last)) none)

/-- Numbering the parameters anew, with a record of the old ones, in a query with two of them. -/
theorem Statement.traverse_leaves_numbered :
    ((twoParameters (.named "name") (.named "limit")).traverse {
        onParameter := fun written => do
          modify (written :: ·)
          return .positional 1 } : StateM (List Phrase.Parameter) Statement).run []
      = (twoParameters (.positional 1) (.positional 1), [.named "limit", .named "name"]) := by
  rw [(Statement.traverse_leaves (twoParameters (.named "name") (.named "limit"))).2.1]
  rfl

end EntityQuery.Resolved

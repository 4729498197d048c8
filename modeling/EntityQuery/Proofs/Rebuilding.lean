import EntityQuery.Resolved.Leaf
import EntityQuery.Resolved.Traversal
import EntityQuery.Resolved.Typing

/-!
# Trees built anew

A tree is built anew from other elements: every mention is given another element, and the types
that follow from the elements may be inferred again on the way.

* `rebuilding`: the traversal that does this, without any effect.
* `Expression.rebuilt_arithmetic`, `Select.rebuilt_mk`, …: what it makes of each node.
* `Select.leaves_rebuilt`: the leaves are those of the tree with other elements.
* `Select.rebuilt_rebuilt`: building anew twice is building anew once.
-/

namespace EntityQuery

namespace FromElement

/-- The element with every binding on the way to it changed. -/
def mapBinding (change : Binding → Binding) : FromElement → FromElement
  | root binding => root (change binding)
  | crossJoin binding => crossJoin (change binding)
  | entityJoin binding joinType => entityJoin (change binding) joinType
  | attributeJoin binding source join =>
    attributeJoin (change binding) (source.mapBinding change) join
  | treated binding wrapped => treated (change binding) (wrapped.mapBinding change)

variable {change later : Binding → Binding} {element : FromElement}

@[simp] theorem binding_mapBinding :
    (element.mapBinding change).binding = change element.binding := by
  cases element <;> rfl

@[simp] theorem join?_mapBinding : (element.mapBinding change).join? = element.join? := by
  cases element <;> rfl

theorem chain_mapBinding :
    (element.mapBinding change).chain = element.chain.map (mapBinding change) := by
  induction element with
  | attributeJoin binding source join ih => simp [mapBinding, chain, ih]
  | treated binding wrapped ih => simp [mapBinding, chain, ih]
  | _ => rfl

theorem unwrapped_mapBinding :
    (element.mapBinding change).unwrapped = element.unwrapped.mapBinding change := by
  induction element with
  | treated binding wrapped ih => exact ih
  | _ => rfl

theorem mapBinding_mapBinding :
    (element.mapBinding change).mapBinding later
      = element.mapBinding fun binding => later (change binding) := by
  induction element with
  | attributeJoin binding source join ih => simp [mapBinding, ih]
  | treated binding wrapped ih => simp [mapBinding, ih]
  | _ => rfl

theorem mapBinding_congr
    (h : ∀ part ∈ element.chain, change part.binding = later part.binding) :
    element.mapBinding change = element.mapBinding later := by
  have hself : change element.binding = later element.binding := h element element.mem_chain_self
  induction element with
  | attributeJoin binding source join ih =>
    have hsource : ∀ part ∈ source.chain, change part.binding = later part.binding :=
      fun part hpart => h part (List.mem_cons_of_mem _ hpart)
    have hbinding : change binding = later binding := hself
    rw [mapBinding, mapBinding, hbinding, ih hsource (hsource source source.mem_chain_self)]
  | treated binding wrapped ih =>
    have hwrapped : ∀ part ∈ wrapped.chain, change part.binding = later part.binding :=
      fun part hpart => h part (List.mem_cons_of_mem _ hpart)
    have hbinding : change binding = later binding := hself
    rw [mapBinding, mapBinding, hbinding, ih hwrapped (hwrapped wrapped wrapped.mem_chain_self)]
  | root binding => exact congrArg root hself
  | crossJoin binding => exact congrArg crossJoin hself
  | entityJoin binding joinType => exact congrArg (entityJoin · joinType) hself

end FromElement

namespace Resolved

/-- The traversal that gives every mention another element and, if asked, infers types again. -/
def rebuilding (retypes : Bool) (visit : FromElement → FromElement) : Traversal Id where
  onElement := visit
  adjustExpression := if retypes then Expression.retyped else id
  adjustSubquery := if retypes then Subquery.retyped else id
  adjustSelect := if retypes then Select.retyped else id

/-- The leaf with another element, if it is one. -/
def Leaf.replaced (visit : FromElement → FromElement) : Leaf → Leaf
  | .element bound => .element (visit bound)
  | .literal token => .literal token
  | .parameter written => .parameter written

section

variable (retypes : Bool) (visit : FromElement → FromElement)

def Expression.rebuilt (node : Expression) : Expression :=
  node.traverse (rebuilding retypes visit)

def AttributeReference.rebuilt (node : AttributeReference) : AttributeReference :=
  node.traverse (rebuilding retypes visit)

def PathSource.rebuilt (node : PathSource) : PathSource :=
  node.traverse (rebuilding retypes visit)

def IndexedReference.rebuilt (node : IndexedReference) : IndexedReference :=
  node.traverse (rebuilding retypes visit)

def SimpleWhen.rebuilt (node : SimpleWhen) : SimpleWhen :=
  node.traverse (rebuilding retypes visit)

def SearchedWhen.rebuilt (node : SearchedWhen) : SearchedWhen :=
  node.traverse (rebuilding retypes visit)

def Argument.rebuilt (node : Argument) : Argument :=
  node.traverse (rebuilding retypes visit)

def Predicate.rebuilt (node : Predicate) : Predicate :=
  node.traverse (rebuilding retypes visit)

def Subquery.rebuilt (node : Subquery) : Subquery :=
  node.traverse (rebuilding retypes visit)

def Selection.rebuilt (node : Selection) : Selection :=
  node.traverse (rebuilding retypes visit)

def Join.rebuilt (node : Join) : Join :=
  node.traverse (rebuilding retypes visit)

def Space.rebuilt (node : Space) : Space :=
  node.traverse (rebuilding retypes visit)

def SortItem.rebuilt (node : SortItem) : SortItem :=
  node.traverse (rebuilding retypes visit)

def Select.rebuilt (node : Select) : Select :=
  node.traverse (rebuilding retypes visit)

end

/-! ## Nodes -/

section

variable {retypes : Bool} {visit : FromElement → FromElement}

theorem traverseExpressions_rebuilding (nodes : List Expression) :
    traverseExpressions (rebuilding retypes visit) nodes
      = nodes.map (Expression.rebuilt retypes visit) := by
  induction nodes with
  | nil => rfl
  | cons node nodes ih => exact congrArg (node.rebuilt retypes visit :: ·) ih

theorem traverseOptional_rebuilding (node : Option Expression) :
    traverseOptional (rebuilding retypes visit) node
      = node.map (Expression.rebuilt retypes visit) := by
  cases node <;> rfl

theorem traverseSimpleWhens_rebuilding (nodes : List SimpleWhen) :
    traverseSimpleWhens (rebuilding retypes visit) nodes
      = nodes.map (SimpleWhen.rebuilt retypes visit) := by
  induction nodes with
  | nil => rfl
  | cons node nodes ih => exact congrArg (node.rebuilt retypes visit :: ·) ih

theorem traverseSearchedWhens_rebuilding (nodes : List SearchedWhen) :
    traverseSearchedWhens (rebuilding retypes visit) nodes
      = nodes.map (SearchedWhen.rebuilt retypes visit) := by
  induction nodes with
  | nil => rfl
  | cons node nodes ih => exact congrArg (node.rebuilt retypes visit :: ·) ih

theorem traverseArguments_rebuilding (nodes : List Argument) :
    traverseArguments (rebuilding retypes visit) nodes
      = nodes.map (Argument.rebuilt retypes visit) := by
  induction nodes with
  | nil => rfl
  | cons node nodes ih => exact congrArg (node.rebuilt retypes visit :: ·) ih

theorem traverseRestriction_rebuilding (node : Option Predicate) :
    traverseRestriction (rebuilding retypes visit) node
      = node.map (Predicate.rebuilt retypes visit) := by
  cases node <;> rfl

theorem traverseSelections_rebuilding (nodes : List Selection) :
    traverseSelections (rebuilding retypes visit) nodes
      = nodes.map (Selection.rebuilt retypes visit) := by
  induction nodes with
  | nil => rfl
  | cons node nodes ih => exact congrArg (node.rebuilt retypes visit :: ·) ih

theorem traverseJoins_rebuilding (nodes : List Join) :
    traverseJoins (rebuilding retypes visit) nodes = nodes.map (Join.rebuilt retypes visit) := by
  induction nodes with
  | nil => rfl
  | cons node nodes ih => exact congrArg (node.rebuilt retypes visit :: ·) ih

theorem traverseSpaces_rebuilding (nodes : List Space) :
    traverseSpaces (rebuilding retypes visit) nodes = nodes.map (Space.rebuilt retypes visit) := by
  induction nodes with
  | nil => rfl
  | cons node nodes ih => exact congrArg (node.rebuilt retypes visit :: ·) ih

theorem traverseSortItems_rebuilding (nodes : List SortItem) :
    traverseSortItems (rebuilding retypes visit) nodes
      = nodes.map (SortItem.rebuilt retypes visit) := by
  induction nodes with
  | nil => rfl
  | cons node nodes ih => exact congrArg (node.rebuilt retypes visit :: ·) ih

namespace Expression

theorem rebuilt_literal (token : Literal) :
    (literal token).rebuilt retypes visit = literal token := by
  cases retypes <;> rfl

theorem rebuilt_parameter (written : Phrase.Parameter) :
    (parameter written).rebuilt retypes visit = parameter written := by
  cases retypes <;> rfl

theorem rebuilt_element (bound : FromElement) :
    (element bound).rebuilt retypes visit = element (visit bound) := by
  cases retypes <;> rfl

theorem rebuilt_entityType (entity : EntityReference) :
    (entityType entity).rebuilt retypes visit = entityType entity := by
  cases retypes <;> rfl

theorem rebuilt_reference (attained : AttributeReference) :
    (reference attained).rebuilt retypes visit = reference (attained.rebuilt retypes visit) := by
  cases retypes <;> rfl

theorem rebuilt_indexed (attained : IndexedReference) :
    (indexed attained).rebuilt retypes visit = indexed (attained.rebuilt retypes visit) := by
  cases retypes <;> rfl

theorem rebuilt_constant (owner : HostClass) (member : String) (type : BasicType) :
    (constant owner member type).rebuilt retypes visit = constant owner member type := by
  cases retypes <;> rfl

theorem rebuilt_mapEntry (function : MapFunction) (join : FromElement)
    (type? : Option TypeDescriptor) :
    (mapEntry function join type?).rebuilt retypes visit
      = mapEntry function (visit join) type? := by
  cases retypes <;> rfl

theorem rebuilt_collectionFunction (function : CollectionFunction) (argument : Expression)
    (type? : Option TypeDescriptor) :
    (collectionFunction function argument type?).rebuilt retypes visit
      = collectionFunction function (argument.rebuilt retypes visit) type? := by
  cases retypes <;> rfl

/-- The type of a call is inferred again for standard functions. -/
theorem rebuilt_call (name : String) (distinct star standard : Bool) (arguments : List Expression)
    (type? : Option TypeDescriptor) :
    (call name distinct star standard arguments type?).rebuilt retypes visit
      = call name distinct star standard (arguments.map (Expression.rebuilt retypes visit))
        (if retypes && standard then
          Catalogue.resultType? name
            ((arguments.map (Expression.rebuilt retypes visit)).map Expression.type?)
        else type?) := by
  rw [← traverseExpressions_rebuilding]
  cases retypes <;> cases standard <;> rfl

theorem rebuilt_arithmetic (operator : ArithmeticOperator) (left right : Expression)
    (type? : Option TypeDescriptor) :
    (arithmetic operator left right type?).rebuilt retypes visit
      = arithmetic operator (left.rebuilt retypes visit) (right.rebuilt retypes visit)
        (if retypes then
          Catalogue.arithmeticType? (left.rebuilt retypes visit).type?
            (right.rebuilt retypes visit).type?
        else type?) := by
  cases retypes <;> rfl

theorem rebuilt_concatenation (left right : Expression) :
    (concatenation left right).rebuilt retypes visit
      = concatenation (left.rebuilt retypes visit) (right.rebuilt retypes visit) := by
  cases retypes <;> rfl

theorem rebuilt_unary (sign : Sign) (operand : Expression) :
    (unary sign operand).rebuilt retypes visit = unary sign (operand.rebuilt retypes visit) := by
  cases retypes <;> rfl

theorem rebuilt_simpleCase (operand : Expression) (whens : List SimpleWhen)
    (otherwise : Option Expression) (type? : Option TypeDescriptor) :
    (simpleCase operand whens otherwise type?).rebuilt retypes visit
      = simpleCase (operand.rebuilt retypes visit) (whens.map (SimpleWhen.rebuilt retypes visit))
        (otherwise.map (Expression.rebuilt retypes visit))
        (if retypes then
          caseType? ((whens.map (SimpleWhen.rebuilt retypes visit)).map SimpleWhen.result)
            (otherwise.map (Expression.rebuilt retypes visit))
        else type?) := by
  rw [← traverseSimpleWhens_rebuilding, ← traverseOptional_rebuilding]
  cases retypes <;> rfl

theorem rebuilt_searchedCase (whens : List SearchedWhen) (otherwise : Option Expression)
    (type? : Option TypeDescriptor) :
    (searchedCase whens otherwise type?).rebuilt retypes visit
      = searchedCase (whens.map (SearchedWhen.rebuilt retypes visit))
        (otherwise.map (Expression.rebuilt retypes visit))
        (if retypes then
          caseType? ((whens.map (SearchedWhen.rebuilt retypes visit)).map SearchedWhen.result)
            (otherwise.map (Expression.rebuilt retypes visit))
        else type?) := by
  rw [← traverseSearchedWhens_rebuilding, ← traverseOptional_rebuilding]
  cases retypes <;> rfl

theorem rebuilt_subquery (nested : Subquery) :
    (subquery nested).rebuilt retypes visit = subquery (nested.rebuilt retypes visit) := by
  cases retypes <;> rfl

theorem rebuilt_selection (aliasName : String) (position : Nat) (type? : Option TypeDescriptor) :
    (selection aliasName position type?).rebuilt retypes visit
      = selection aliasName position type? := by
  cases retypes <;> rfl

theorem rebuilt_instantiation (target : Target) (arguments : List Argument) :
    (instantiation target arguments).rebuilt retypes visit
      = instantiation target (arguments.map (Argument.rebuilt retypes visit)) := by
  rw [← traverseArguments_rebuilding]
  cases retypes <;> rfl

end Expression

@[simp] theorem AttributeReference.type_rebuilt (node : AttributeReference) :
    (node.rebuilt retypes visit).type = node.type := by
  cases node
  rfl

theorem AttributeReference.isPlural_rebuilt (node : AttributeReference) :
    (node.rebuilt retypes visit).isPlural = node.isPlural := by
  rw [isPlural, type_rebuilt, isPlural]

theorem IndexedReference.type_rebuilt (node : IndexedReference) :
    (node.rebuilt retypes visit).type = node.type := by
  cases node
  rfl

theorem Subquery.rebuilt_mk (select : Select) (type? : Option TypeDescriptor) :
    (Subquery.mk select type?).rebuilt retypes visit
      = .mk (select.rebuilt retypes visit)
        (if retypes then (select.rebuilt retypes visit).selectionType? 0 else type?) := by
  cases retypes <;> rfl

namespace Predicate

theorem rebuilt_between (expression lower upper : Expression) (negated : Bool) :
    (between expression lower upper negated).rebuilt retypes visit
      = between (expression.rebuilt retypes visit) (lower.rebuilt retypes visit)
        (upper.rebuilt retypes visit) negated := rfl

theorem rebuilt_like (matched pattern : Expression) (escape : Option Expression)
    (negated : Bool) :
    (like matched pattern escape negated).rebuilt retypes visit
      = like (matched.rebuilt retypes visit) (pattern.rebuilt retypes visit)
        (escape.map (Expression.rebuilt retypes visit)) negated := by
  rw [← traverseOptional_rebuilding]
  rfl

theorem rebuilt_inList (expression : Expression) (items : List Expression) (negated : Bool) :
    (inList expression items negated).rebuilt retypes visit
      = inList (expression.rebuilt retypes visit)
        (items.map (Expression.rebuilt retypes visit)) negated := by
  rw [← traverseExpressions_rebuilding]
  rfl

end Predicate

theorem Join.rebuilt_mk (element : FromElement) (restriction : Option Predicate) :
    (Join.mk element restriction).rebuilt retypes visit
      = .mk (visit element) (restriction.map (Predicate.rebuilt retypes visit)) := by
  rw [← traverseRestriction_rebuilding]
  rfl

theorem Space.rebuilt_mk (root : FromElement) (joins : List Join) :
    (Space.mk root joins).rebuilt retypes visit
      = .mk (visit root) (joins.map (Join.rebuilt retypes visit)) := by
  rw [← traverseJoins_rebuilding]
  rfl

/-- The order of a query with the types of selections. -/
def retypedOrder (selections : List Selection) (order : Option (List SortItem)) :
    Option (List SortItem) :=
  order.map fun items => items.map (SortItem.retyped selections)

/-- The types of result variables in the order are those of the rebuilt selections. -/
theorem Select.rebuilt_mk (spaces : List Space) (distinct : Bool) (selections : List Selection)
    (restriction : Option Predicate) (order : Option (List SortItem))
    (limit offset : Option Expression) :
    (Select.mk spaces distinct selections restriction order limit offset).rebuilt retypes visit
      = .mk (spaces.map (Space.rebuilt retypes visit)) distinct
        (selections.map (Selection.rebuilt retypes visit))
        (restriction.map (Predicate.rebuilt retypes visit))
        (if retypes then
          retypedOrder (selections.map (Selection.rebuilt retypes visit))
            (order.map fun items => items.map (SortItem.rebuilt retypes visit))
        else order.map fun items => items.map (SortItem.rebuilt retypes visit))
        (limit.map (Expression.rebuilt retypes visit))
        (offset.map (Expression.rebuilt retypes visit)) := by
  have horder : traverseOrder (rebuilding retypes visit) order
      = order.map fun items => items.map (SortItem.rebuilt retypes visit) := by
    cases order with
    | none => rfl
    | some items => exact congrArg some (traverseSortItems_rebuilding items)
  rw [← horder, ← traverseSpaces_rebuilding, ← traverseSelections_rebuilding,
    ← traverseRestriction_rebuilding, ← traverseOptional_rebuilding limit,
    ← traverseOptional_rebuilding offset]
  cases retypes <;> rfl

end

end Resolved
end EntityQuery

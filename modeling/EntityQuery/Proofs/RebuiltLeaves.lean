import EntityQuery.Proofs.Rebuilding

/-!
# Leaves of trees built anew

Building anew replaces the elements among the leaves and leaves all else in its order.

* `Select.leaves_rebuilt`, `Select.elements_rebuilt`.
-/

namespace EntityQuery.Resolved

theorem SortItem.leaves_retyped (selections : List Selection) (item : SortItem) :
    (item.retyped selections).leaves = item.leaves := by
  obtain ⟨expression, collation, order⟩ := item
  cases expression <;> rfl

theorem orderLeaves_retyped (selections : List Selection) (order : Option (List SortItem)) :
    orderLeaves (retypedOrder selections order) = orderLeaves order := by
  cases order with
  | none => rfl
  | some items =>
    change sortLeaves (items.map (SortItem.retyped selections)) = sortLeaves items
    induction items with
    | nil => rfl
    | cons item items ih =>
      rw [List.map_cons, sortLeaves, sortLeaves, SortItem.leaves_retyped, ih]

section

variable {retypes : Bool} {visit : FromElement → FromElement}

mutual

theorem Expression.leaves_rebuilt :
    ∀ node : Expression, (node.rebuilt retypes visit).leaves
      = node.leaves.map (Leaf.replaced visit)
  | .literal token => by rw [Expression.rebuilt_literal]; rfl
  | .parameter written => by rw [Expression.rebuilt_parameter]; rfl
  | .element bound => by rw [Expression.rebuilt_element]; rfl
  | .entityType entity => by rw [Expression.rebuilt_entityType]; rfl
  | .reference attained => by
    rw [Expression.rebuilt_reference, Expression.leaves, Expression.leaves, attained.leaves_rebuilt]
  | .indexed attained => by
    rw [Expression.rebuilt_indexed, Expression.leaves, Expression.leaves, attained.leaves_rebuilt]
  | .constant owner member type => by rw [Expression.rebuilt_constant]; rfl
  | .mapEntry function join type? => by rw [Expression.rebuilt_mapEntry]; rfl
  | .collectionFunction function argument type? => by
    rw [Expression.rebuilt_collectionFunction, Expression.leaves, Expression.leaves,
      argument.leaves_rebuilt]
  | .call name distinct star standard arguments type? => by
    rw [Expression.rebuilt_call, Expression.leaves, Expression.leaves,
      expressionLeaves_rebuilt arguments]
  | .arithmetic operator left right type? => by
    rw [Expression.rebuilt_arithmetic, Expression.leaves, Expression.leaves, left.leaves_rebuilt,
      right.leaves_rebuilt,
      List.map_append]
  | .concatenation left right => by
    rw [Expression.rebuilt_concatenation, Expression.leaves, Expression.leaves,
      left.leaves_rebuilt, right.leaves_rebuilt,
      List.map_append]
  | .unary sign operand => by
    rw [Expression.rebuilt_unary, Expression.leaves, Expression.leaves, operand.leaves_rebuilt]
  | .simpleCase operand whens otherwise type? => by
    rw [Expression.rebuilt_simpleCase, Expression.leaves, Expression.leaves,
      operand.leaves_rebuilt, simpleWhenLeaves_rebuilt whens,
      optionalLeaves_rebuilt otherwise, List.map_append, List.map_append]
  | .searchedCase whens otherwise type? => by
    rw [Expression.rebuilt_searchedCase, Expression.leaves, Expression.leaves,
      searchedWhenLeaves_rebuilt whens,
      optionalLeaves_rebuilt otherwise, List.map_append]
  | .subquery nested => by
    rw [Expression.rebuilt_subquery, Expression.leaves, Expression.leaves, nested.leaves_rebuilt]
  | .selection aliasName position type? => by rw [Expression.rebuilt_selection]; rfl
  | .instantiation target arguments => by
    rw [Expression.rebuilt_instantiation, Expression.leaves, Expression.leaves,
      argumentLeaves_rebuilt arguments]

theorem AttributeReference.leaves_rebuilt :
    ∀ node : AttributeReference, (node.rebuilt retypes visit).leaves
      = node.leaves.map (Leaf.replaced visit)
  | .mk source _ _ => source.leaves_rebuilt

theorem PathSource.leaves_rebuilt :
    ∀ node : PathSource, (node.rebuilt retypes visit).leaves
      = node.leaves.map (Leaf.replaced visit)
  | .element _ => rfl
  | .indexed attained => IndexedReference.leaves_rebuilt attained
  | .reference attained => AttributeReference.leaves_rebuilt attained

theorem IndexedReference.leaves_rebuilt :
    ∀ node : IndexedReference, (node.rebuilt retypes visit).leaves
      = node.leaves.map (Leaf.replaced visit)
  | .mk collection index type => by
    change (collection.rebuilt retypes visit).leaves ++ (index.rebuilt retypes visit).leaves = _
    rw [collection.leaves_rebuilt, index.leaves_rebuilt, IndexedReference.leaves, List.map_append]

theorem expressionLeaves_rebuilt :
    ∀ nodes : List Expression, expressionLeaves (nodes.map (Expression.rebuilt retypes visit))
      = (expressionLeaves nodes).map (Leaf.replaced visit)
  | [] => rfl
  | node :: nodes => by
    rw [List.map_cons, expressionLeaves, expressionLeaves, node.leaves_rebuilt,
      expressionLeaves_rebuilt nodes, List.map_append]

theorem optionalLeaves_rebuilt :
    ∀ node : Option Expression, optionalLeaves (node.map (Expression.rebuilt retypes visit))
      = (optionalLeaves node).map (Leaf.replaced visit)
  | none => rfl
  | some node => Expression.leaves_rebuilt node

theorem SimpleWhen.leaves_rebuilt :
    ∀ node : SimpleWhen, (node.rebuilt retypes visit).leaves
      = node.leaves.map (Leaf.replaced visit)
  | .mk value result => by
    change (value.rebuilt retypes visit).leaves ++ (result.rebuilt retypes visit).leaves = _
    rw [value.leaves_rebuilt, result.leaves_rebuilt, SimpleWhen.leaves, List.map_append]

theorem simpleWhenLeaves_rebuilt :
    ∀ nodes : List SimpleWhen, simpleWhenLeaves (nodes.map (SimpleWhen.rebuilt retypes visit))
      = (simpleWhenLeaves nodes).map (Leaf.replaced visit)
  | [] => rfl
  | node :: nodes => by
    rw [List.map_cons, simpleWhenLeaves, simpleWhenLeaves, node.leaves_rebuilt,
      simpleWhenLeaves_rebuilt nodes, List.map_append]

theorem SearchedWhen.leaves_rebuilt :
    ∀ node : SearchedWhen, (node.rebuilt retypes visit).leaves
      = node.leaves.map (Leaf.replaced visit)
  | .mk condition result => by
    change (condition.rebuilt retypes visit).leaves ++ (result.rebuilt retypes visit).leaves = _
    rw [condition.leaves_rebuilt, result.leaves_rebuilt, SearchedWhen.leaves, List.map_append]

theorem searchedWhenLeaves_rebuilt :
    ∀ nodes : List SearchedWhen,
      searchedWhenLeaves (nodes.map (SearchedWhen.rebuilt retypes visit))
        = (searchedWhenLeaves nodes).map (Leaf.replaced visit)
  | [] => rfl
  | node :: nodes => by
    rw [List.map_cons, searchedWhenLeaves, searchedWhenLeaves, node.leaves_rebuilt,
      searchedWhenLeaves_rebuilt nodes, List.map_append]

theorem Argument.leaves_rebuilt :
    ∀ node : Argument, (node.rebuilt retypes visit).leaves
      = node.leaves.map (Leaf.replaced visit)
  | .mk expression _ => expression.leaves_rebuilt

theorem argumentLeaves_rebuilt :
    ∀ nodes : List Argument, argumentLeaves (nodes.map (Argument.rebuilt retypes visit))
      = (argumentLeaves nodes).map (Leaf.replaced visit)
  | [] => rfl
  | node :: nodes => by
    rw [List.map_cons, argumentLeaves, argumentLeaves, node.leaves_rebuilt,
      argumentLeaves_rebuilt nodes, List.map_append]

theorem Predicate.leaves_rebuilt :
    ∀ node : Predicate, (node.rebuilt retypes visit).leaves
      = node.leaves.map (Leaf.replaced visit)
  | .and left right => by
    change (left.rebuilt retypes visit).leaves ++ (right.rebuilt retypes visit).leaves = _
    rw [left.leaves_rebuilt, right.leaves_rebuilt, Predicate.leaves, List.map_append]
  | .or left right => by
    change (left.rebuilt retypes visit).leaves ++ (right.rebuilt retypes visit).leaves = _
    rw [left.leaves_rebuilt, right.leaves_rebuilt, Predicate.leaves, List.map_append]
  | .not inner => inner.leaves_rebuilt
  | .grouped inner => inner.leaves_rebuilt
  | .comparison operator left right => by
    change (left.rebuilt retypes visit).leaves ++ (right.rebuilt retypes visit).leaves = _
    rw [left.leaves_rebuilt, right.leaves_rebuilt, Predicate.leaves, List.map_append]
  | .between expression lower upper negated => by
    change (expression.rebuilt retypes visit).leaves ++ (lower.rebuilt retypes visit).leaves
      ++ (upper.rebuilt retypes visit).leaves = _
    rw [expression.leaves_rebuilt, lower.leaves_rebuilt, upper.leaves_rebuilt, Predicate.leaves,
      List.map_append, List.map_append]
  | .like matched pattern escape negated => by
    change (matched.rebuilt retypes visit).leaves ++ (pattern.rebuilt retypes visit).leaves
      ++ optionalLeaves (traverseOptional (rebuilding retypes visit) escape) = _
    rw [traverseOptional_rebuilding, matched.leaves_rebuilt, pattern.leaves_rebuilt,
      optionalLeaves_rebuilt escape, Predicate.leaves, List.map_append, List.map_append]
  | .inList expression items negated => by
    change (expression.rebuilt retypes visit).leaves
      ++ expressionLeaves (traverseExpressions (rebuilding retypes visit) items) = _
    rw [traverseExpressions_rebuilding, expression.leaves_rebuilt, expressionLeaves_rebuilt items,
      Predicate.leaves, List.map_append]
  | .inSubquery expression nested negated => by
    change (expression.rebuilt retypes visit).leaves ++ (nested.rebuilt retypes visit).leaves = _
    rw [expression.leaves_rebuilt, nested.leaves_rebuilt, Predicate.leaves, List.map_append]
  | .isNull expression _ => expression.leaves_rebuilt
  | .isEmpty collection _ => collection.leaves_rebuilt
  | .memberOf plural other negated => by
    change (plural.rebuilt retypes visit).leaves ++ (other.rebuilt retypes visit).leaves = _
    rw [plural.leaves_rebuilt, other.leaves_rebuilt, Predicate.leaves, List.map_append]
  | .existence nested _ => nested.leaves_rebuilt

theorem restrictionLeaves_rebuilt :
    ∀ node : Option Predicate, restrictionLeaves (node.map (Predicate.rebuilt retypes visit))
      = (restrictionLeaves node).map (Leaf.replaced visit)
  | none => rfl
  | some node => Predicate.leaves_rebuilt node

theorem Subquery.leaves_rebuilt :
    ∀ node : Subquery, (node.rebuilt retypes visit).leaves
      = node.leaves.map (Leaf.replaced visit)
  | .mk select type? => by
    rw [Subquery.rebuilt_mk, Subquery.leaves, Subquery.leaves, select.leaves_rebuilt]

theorem Selection.leaves_rebuilt :
    ∀ node : Selection, (node.rebuilt retypes visit).leaves
      = node.leaves.map (Leaf.replaced visit)
  | .mk expression _ => expression.leaves_rebuilt

theorem selectionLeaves_rebuilt :
    ∀ nodes : List Selection, selectionLeaves (nodes.map (Selection.rebuilt retypes visit))
      = (selectionLeaves nodes).map (Leaf.replaced visit)
  | [] => rfl
  | node :: nodes => by
    rw [List.map_cons, selectionLeaves, selectionLeaves, node.leaves_rebuilt,
      selectionLeaves_rebuilt nodes, List.map_append]

theorem Join.leaves_rebuilt :
    ∀ node : Join, (node.rebuilt retypes visit).leaves
      = node.leaves.map (Leaf.replaced visit)
  | .mk element restriction => by
    rw [Join.rebuilt_mk, Join.leaves, Join.leaves, restrictionLeaves_rebuilt restriction]
    rfl

theorem joinLeaves_rebuilt :
    ∀ nodes : List Join, joinLeaves (nodes.map (Join.rebuilt retypes visit))
      = (joinLeaves nodes).map (Leaf.replaced visit)
  | [] => rfl
  | node :: nodes => by
    rw [List.map_cons, joinLeaves, joinLeaves, node.leaves_rebuilt, joinLeaves_rebuilt nodes,
      List.map_append]

theorem Space.leaves_rebuilt :
    ∀ node : Space, (node.rebuilt retypes visit).leaves
      = node.leaves.map (Leaf.replaced visit)
  | .mk root joins => by
    rw [Space.rebuilt_mk, Space.leaves, Space.leaves, joinLeaves_rebuilt joins]
    rfl

theorem spaceLeaves_rebuilt :
    ∀ nodes : List Space, spaceLeaves (nodes.map (Space.rebuilt retypes visit))
      = (spaceLeaves nodes).map (Leaf.replaced visit)
  | [] => rfl
  | node :: nodes => by
    rw [List.map_cons, spaceLeaves, spaceLeaves, node.leaves_rebuilt, spaceLeaves_rebuilt nodes,
      List.map_append]

theorem SortItem.leaves_rebuilt :
    ∀ node : SortItem, (node.rebuilt retypes visit).leaves
      = node.leaves.map (Leaf.replaced visit)
  | .mk expression _ _ => expression.leaves_rebuilt

theorem sortLeaves_rebuilt :
    ∀ nodes : List SortItem, sortLeaves (nodes.map (SortItem.rebuilt retypes visit))
      = (sortLeaves nodes).map (Leaf.replaced visit)
  | [] => rfl
  | node :: nodes => by
    rw [List.map_cons, sortLeaves, sortLeaves, node.leaves_rebuilt, sortLeaves_rebuilt nodes,
      List.map_append]

theorem orderLeaves_rebuilt :
    ∀ node : Option (List SortItem),
      orderLeaves (node.map fun items => items.map (SortItem.rebuilt retypes visit))
        = (orderLeaves node).map (Leaf.replaced visit)
  | none => rfl
  | some nodes => sortLeaves_rebuilt nodes

theorem Select.leaves_rebuilt :
    ∀ node : Select, (node.rebuilt retypes visit).leaves
      = node.leaves.map (Leaf.replaced visit)
  | .mk spaces distinct selections restriction order limit offset => by
    have horder : orderLeaves (if retypes then
          retypedOrder (selections.map (Selection.rebuilt retypes visit))
            (order.map fun items => items.map (SortItem.rebuilt retypes visit))
        else order.map fun items => items.map (SortItem.rebuilt retypes visit))
        = (orderLeaves order).map (Leaf.replaced visit) := by
      split
      · rw [orderLeaves_retyped, orderLeaves_rebuilt order]
      · exact orderLeaves_rebuilt order
    rw [Select.rebuilt_mk, Select.leaves, Select.leaves, horder, spaceLeaves_rebuilt spaces,
      selectionLeaves_rebuilt selections, restrictionLeaves_rebuilt restriction,
      optionalLeaves_rebuilt limit, optionalLeaves_rebuilt offset]
    simp only [List.map_append]

end

end

/-- Where the elements are changed binding by binding, so is all that they were reached by. -/
theorem Select.elements_rebuilt (retypes : Bool) (change : Binding → Binding) (select : Select) :
    (select.rebuilt retypes (FromElement.mapBinding change)).elements
      = select.elements.map (FromElement.mapBinding change) := by
  have hchain : ∀ leaf : Leaf, (leaf.replaced (FromElement.mapBinding change)).chain
      = leaf.chain.map (FromElement.mapBinding change) := by
    intro leaf
    cases leaf with
    | element bound => exact FromElement.chain_mapBinding
    | literal token => rfl
    | parameter written => rfl
  rw [elements, elements, leafElements, leafElements, leaves_rebuilt, List.flatMap_map,
    List.map_flatMap]
  exact congrArg (List.flatMap · select.leaves) (funext hchain)

end EntityQuery.Resolved

import EntityQuery.Resolved.Leaf

/-!
# Trees with other leaves

Each leaf of a resolved query is exchanged by a function of its kind, and everything else is left
in its place.

* `LeafMap`: what stands for an element, a literal and a parameter.
* `Statement.mapped`, `Select.mapped`, `Expression.mapped`: the trees.
* `Statement.leaves_mapped`: the leaves are exchanged one by one, in their order.
* `Statement.mapped_id`: a tree is left as it is where no leaf is changed.
-/

namespace EntityQuery.Resolved

/-- What stands for the leaves of each kind; where nothing is said, the leaf itself. -/
structure LeafMap where
  element : FromElement → FromElement := id
  literal : Literal → Literal := id
  parameter : Phrase.Parameter → Phrase.Parameter := id

def LeafMap.leaf (change : LeafMap) : Leaf → Leaf
  | .element bound => .element (change.element bound)
  | .literal token => .literal (change.literal token)
  | .parameter written => .parameter (change.parameter written)

section

variable (change : LeafMap)

mutual

def Expression.mapped : Expression → Expression
  | .literal token => .literal (change.literal token)
  | .parameter written => .parameter (change.parameter written)
  | .element bound => .element (change.element bound)
  | .entityType entity => .entityType entity
  | .reference attained => .reference attained.mapped
  | .indexed attained => .indexed attained.mapped
  | .constant owner member type => .constant owner member type
  | .mapEntry function join type? => .mapEntry function (change.element join) type?
  | .collectionFunction function argument type? =>
    .collectionFunction function argument.mapped type?
  | .call name distinct star standard arguments type? =>
    .call name distinct star standard (expressionsMapped arguments) type?
  | .arithmetic operator left right type? => .arithmetic operator left.mapped right.mapped type?
  | .concatenation left right => .concatenation left.mapped right.mapped
  | .unary sign operand => .unary sign operand.mapped
  | .simpleCase operand whens otherwise type? =>
    .simpleCase operand.mapped (simpleWhensMapped whens) (optionalMapped otherwise) type?
  | .searchedCase whens otherwise type? =>
    .searchedCase (searchedWhensMapped whens) (optionalMapped otherwise) type?
  | .subquery nested => .subquery nested.mapped
  | .selection aliasName position type? => .selection aliasName position type?
  | .instantiation target arguments => .instantiation target (argumentsMapped arguments)

def AttributeReference.mapped : AttributeReference → AttributeReference
  | .mk source declared type => .mk source.mapped declared type

def PathSource.mapped : PathSource → PathSource
  | .element bound => .element (change.element bound)
  | .indexed attained => .indexed attained.mapped
  | .reference attained => .reference attained.mapped

def IndexedReference.mapped : IndexedReference → IndexedReference
  | .mk collection index type => .mk collection.mapped index.mapped type

def expressionsMapped : List Expression → List Expression
  | [] => []
  | first :: rest => first.mapped :: expressionsMapped rest

def optionalMapped : Option Expression → Option Expression
  | none => none
  | some value => some value.mapped

def SimpleWhen.mapped : SimpleWhen → SimpleWhen
  | .mk value result => .mk value.mapped result.mapped

def simpleWhensMapped : List SimpleWhen → List SimpleWhen
  | [] => []
  | first :: rest => first.mapped :: simpleWhensMapped rest

def SearchedWhen.mapped : SearchedWhen → SearchedWhen
  | .mk condition result => .mk condition.mapped result.mapped

def searchedWhensMapped : List SearchedWhen → List SearchedWhen
  | [] => []
  | first :: rest => first.mapped :: searchedWhensMapped rest

def Argument.mapped : Argument → Argument
  | .mk value alias? => .mk value.mapped alias?

def argumentsMapped : List Argument → List Argument
  | [] => []
  | first :: rest => first.mapped :: argumentsMapped rest

def Predicate.mapped : Predicate → Predicate
  | .and left right => .and left.mapped right.mapped
  | .or left right => .or left.mapped right.mapped
  | .not inner => .not inner.mapped
  | .grouped inner => .grouped inner.mapped
  | .comparison operator left right => .comparison operator left.mapped right.mapped
  | .between tested lower upper negated => .between tested.mapped lower.mapped upper.mapped negated
  | .like matched pattern escape negated =>
    .like matched.mapped pattern.mapped (optionalMapped escape) negated
  | .inList tested items negated => .inList tested.mapped (expressionsMapped items) negated
  | .inSubquery tested nested negated => .inSubquery tested.mapped nested.mapped negated
  | .isNull tested negated => .isNull tested.mapped negated
  | .isEmpty collection negated => .isEmpty collection.mapped negated
  | .memberOf plural other negated => .memberOf plural.mapped other.mapped negated
  | .existence nested negated => .existence nested.mapped negated

def restrictionMapped : Option Predicate → Option Predicate
  | none => none
  | some condition => some condition.mapped

def Subquery.mapped : Subquery → Subquery
  | .mk select type? => .mk select.mapped type?

def Selection.mapped : Selection → Selection
  | .mk value alias? => .mk value.mapped alias?

def selectionsMapped : List Selection → List Selection
  | [] => []
  | first :: rest => first.mapped :: selectionsMapped rest

def Join.mapped : Join → Join
  | .mk element condition => .mk (change.element element) (restrictionMapped condition)

def joinsMapped : List Join → List Join
  | [] => []
  | first :: rest => first.mapped :: joinsMapped rest

def Space.mapped : Space → Space
  | .mk root joins => .mk (change.element root) (joinsMapped joins)

def spacesMapped : List Space → List Space
  | [] => []
  | first :: rest => first.mapped :: spacesMapped rest

def SortItem.mapped : SortItem → SortItem
  | .mk value collation order => .mk value.mapped collation order

def sortItemsMapped : List SortItem → List SortItem
  | [] => []
  | first :: rest => first.mapped :: sortItemsMapped rest

def orderMapped : Option (List SortItem) → Option (List SortItem)
  | none => none
  | some items => some (sortItemsMapped items)

def Select.mapped : Select → Select
  | .mk spaces distinct selections condition order limit offset =>
    .mk (spacesMapped spaces) distinct (selectionsMapped selections) (restrictionMapped condition)
      (orderMapped order) (optionalMapped limit) (optionalMapped offset)

end

def Assignment.mapped (node : Assignment) : Assignment :=
  ⟨node.target.mapped change, node.value.mapped change⟩

/-- The statement with other leaves. -/
def Statement.mapped : Statement → Statement
  | .select query => .select (query.mapped change)
  | .update target assignments condition =>
    .update (target.mapped change) (assignments.map (Assignment.mapped change))
      (restrictionMapped change condition)
  | .delete target condition =>
    .delete (target.mapped change) (restrictionMapped change condition)
  | .insert target stateFields query =>
    .insert (target.mapped change) (stateFields.map (AttributeReference.mapped change))
      (query.mapped change)

end

/-! ## Leaves -/

section

variable {change : LeafMap}

mutual

theorem Expression.leaves_mapped :
    ∀ node : Expression, (node.mapped change).leaves = node.leaves.map change.leaf
  | .literal _ => rfl
  | .parameter _ => rfl
  | .element _ => rfl
  | .entityType _ => rfl
  | .reference attained => AttributeReference.leaves_mapped attained
  | .indexed attained => IndexedReference.leaves_mapped attained
  | .constant _ _ _ => rfl
  | .mapEntry _ _ _ => rfl
  | .collectionFunction _ argument _ => Expression.leaves_mapped argument
  | .call _ _ _ _ arguments _ => expressionLeaves_mapped arguments
  | .arithmetic _ left right _ => by
    rw [Expression.mapped, Expression.leaves, Expression.leaves, left.leaves_mapped,
      right.leaves_mapped, List.map_append]
  | .concatenation left right => by
    rw [Expression.mapped, Expression.leaves, Expression.leaves, left.leaves_mapped,
      right.leaves_mapped, List.map_append]
  | .unary _ operand => Expression.leaves_mapped operand
  | .simpleCase operand whens otherwise _ => by
    rw [Expression.mapped, Expression.leaves, Expression.leaves, operand.leaves_mapped,
      simpleWhenLeaves_mapped whens, optionalLeaves_mapped otherwise, List.map_append,
      List.map_append]
  | .searchedCase whens otherwise _ => by
    rw [Expression.mapped, Expression.leaves, Expression.leaves, searchedWhenLeaves_mapped whens,
      optionalLeaves_mapped otherwise, List.map_append]
  | .subquery nested => Subquery.leaves_mapped nested
  | .selection _ _ _ => rfl
  | .instantiation _ arguments => argumentLeaves_mapped arguments

theorem AttributeReference.leaves_mapped :
    ∀ node : AttributeReference, (node.mapped change).leaves = node.leaves.map change.leaf
  | .mk source _ _ => PathSource.leaves_mapped source

theorem PathSource.leaves_mapped :
    ∀ node : PathSource, (node.mapped change).leaves = node.leaves.map change.leaf
  | .element _ => rfl
  | .indexed attained => IndexedReference.leaves_mapped attained
  | .reference attained => AttributeReference.leaves_mapped attained

theorem IndexedReference.leaves_mapped :
    ∀ node : IndexedReference, (node.mapped change).leaves = node.leaves.map change.leaf
  | .mk collection index _ => by
    rw [IndexedReference.mapped, IndexedReference.leaves, IndexedReference.leaves,
      collection.leaves_mapped, index.leaves_mapped, List.map_append]

theorem expressionLeaves_mapped :
    ∀ nodes : List Expression, expressionLeaves (expressionsMapped change nodes)
      = (expressionLeaves nodes).map change.leaf
  | [] => rfl
  | node :: nodes => by
    rw [expressionsMapped, expressionLeaves, expressionLeaves, node.leaves_mapped,
      expressionLeaves_mapped nodes, List.map_append]

theorem optionalLeaves_mapped :
    ∀ nodes : Option Expression, optionalLeaves (optionalMapped change nodes)
      = (optionalLeaves nodes).map change.leaf
  | none => rfl
  | some node => Expression.leaves_mapped node

theorem SimpleWhen.leaves_mapped :
    ∀ node : SimpleWhen, (node.mapped change).leaves = node.leaves.map change.leaf
  | .mk value result => by
    rw [SimpleWhen.mapped, SimpleWhen.leaves, SimpleWhen.leaves, value.leaves_mapped,
      result.leaves_mapped, List.map_append]

theorem simpleWhenLeaves_mapped :
    ∀ nodes : List SimpleWhen, simpleWhenLeaves (simpleWhensMapped change nodes)
      = (simpleWhenLeaves nodes).map change.leaf
  | [] => rfl
  | node :: nodes => by
    rw [simpleWhensMapped, simpleWhenLeaves, simpleWhenLeaves, node.leaves_mapped,
      simpleWhenLeaves_mapped nodes, List.map_append]

theorem SearchedWhen.leaves_mapped :
    ∀ node : SearchedWhen, (node.mapped change).leaves = node.leaves.map change.leaf
  | .mk condition result => by
    rw [SearchedWhen.mapped, SearchedWhen.leaves, SearchedWhen.leaves, condition.leaves_mapped,
      result.leaves_mapped, List.map_append]

theorem searchedWhenLeaves_mapped :
    ∀ nodes : List SearchedWhen, searchedWhenLeaves (searchedWhensMapped change nodes)
      = (searchedWhenLeaves nodes).map change.leaf
  | [] => rfl
  | node :: nodes => by
    rw [searchedWhensMapped, searchedWhenLeaves, searchedWhenLeaves, node.leaves_mapped,
      searchedWhenLeaves_mapped nodes, List.map_append]

theorem Argument.leaves_mapped :
    ∀ node : Argument, (node.mapped change).leaves = node.leaves.map change.leaf
  | .mk value _ => Expression.leaves_mapped value

theorem argumentLeaves_mapped :
    ∀ nodes : List Argument, argumentLeaves (argumentsMapped change nodes)
      = (argumentLeaves nodes).map change.leaf
  | [] => rfl
  | node :: nodes => by
    rw [argumentsMapped, argumentLeaves, argumentLeaves, node.leaves_mapped,
      argumentLeaves_mapped nodes, List.map_append]

theorem Predicate.leaves_mapped :
    ∀ node : Predicate, (node.mapped change).leaves = node.leaves.map change.leaf
  | .and left right => by
    rw [Predicate.mapped, Predicate.leaves, Predicate.leaves, left.leaves_mapped,
      right.leaves_mapped, List.map_append]
  | .or left right => by
    rw [Predicate.mapped, Predicate.leaves, Predicate.leaves, left.leaves_mapped,
      right.leaves_mapped, List.map_append]
  | .not inner => Predicate.leaves_mapped inner
  | .grouped inner => Predicate.leaves_mapped inner
  | .comparison _ left right => by
    rw [Predicate.mapped, Predicate.leaves, Predicate.leaves, left.leaves_mapped,
      right.leaves_mapped, List.map_append]
  | .between tested lower upper _ => by
    rw [Predicate.mapped, Predicate.leaves, Predicate.leaves, tested.leaves_mapped,
      lower.leaves_mapped, upper.leaves_mapped, List.map_append, List.map_append]
  | .like matched pattern escape _ => by
    rw [Predicate.mapped, Predicate.leaves, Predicate.leaves, matched.leaves_mapped,
      pattern.leaves_mapped, optionalLeaves_mapped escape, List.map_append, List.map_append]
  | .inList tested items _ => by
    rw [Predicate.mapped, Predicate.leaves, Predicate.leaves, tested.leaves_mapped,
      expressionLeaves_mapped items, List.map_append]
  | .inSubquery tested nested _ => by
    rw [Predicate.mapped, Predicate.leaves, Predicate.leaves, tested.leaves_mapped,
      nested.leaves_mapped, List.map_append]
  | .isNull tested _ => Expression.leaves_mapped tested
  | .isEmpty collection _ => AttributeReference.leaves_mapped collection
  | .memberOf plural other _ => by
    rw [Predicate.mapped, Predicate.leaves, Predicate.leaves, plural.leaves_mapped,
      other.leaves_mapped, List.map_append]
  | .existence nested _ => Subquery.leaves_mapped nested

theorem restrictionLeaves_mapped :
    ∀ nodes : Option Predicate, restrictionLeaves (restrictionMapped change nodes)
      = (restrictionLeaves nodes).map change.leaf
  | none => rfl
  | some node => Predicate.leaves_mapped node

theorem Subquery.leaves_mapped :
    ∀ node : Subquery, (node.mapped change).leaves = node.leaves.map change.leaf
  | .mk select _ => Select.leaves_mapped select

theorem Selection.leaves_mapped :
    ∀ node : Selection, (node.mapped change).leaves = node.leaves.map change.leaf
  | .mk value _ => Expression.leaves_mapped value

theorem selectionLeaves_mapped :
    ∀ nodes : List Selection, selectionLeaves (selectionsMapped change nodes)
      = (selectionLeaves nodes).map change.leaf
  | [] => rfl
  | node :: nodes => by
    rw [selectionsMapped, selectionLeaves, selectionLeaves, node.leaves_mapped,
      selectionLeaves_mapped nodes, List.map_append]

theorem Join.leaves_mapped :
    ∀ node : Join, (node.mapped change).leaves = node.leaves.map change.leaf
  | .mk _ condition => by
    rw [Join.mapped, Join.leaves, Join.leaves, restrictionLeaves_mapped condition]
    rfl

theorem joinLeaves_mapped :
    ∀ nodes : List Join, joinLeaves (joinsMapped change nodes)
      = (joinLeaves nodes).map change.leaf
  | [] => rfl
  | node :: nodes => by
    rw [joinsMapped, joinLeaves, joinLeaves, node.leaves_mapped, joinLeaves_mapped nodes,
      List.map_append]

theorem Space.leaves_mapped :
    ∀ node : Space, (node.mapped change).leaves = node.leaves.map change.leaf
  | .mk _ joins => by
    rw [Space.mapped, Space.leaves, Space.leaves, joinLeaves_mapped joins]
    rfl

theorem spaceLeaves_mapped :
    ∀ nodes : List Space, spaceLeaves (spacesMapped change nodes)
      = (spaceLeaves nodes).map change.leaf
  | [] => rfl
  | node :: nodes => by
    rw [spacesMapped, spaceLeaves, spaceLeaves, node.leaves_mapped, spaceLeaves_mapped nodes,
      List.map_append]

theorem SortItem.leaves_mapped :
    ∀ node : SortItem, (node.mapped change).leaves = node.leaves.map change.leaf
  | .mk value _ _ => Expression.leaves_mapped value

theorem sortLeaves_mapped :
    ∀ nodes : List SortItem, sortLeaves (sortItemsMapped change nodes)
      = (sortLeaves nodes).map change.leaf
  | [] => rfl
  | node :: nodes => by
    rw [sortItemsMapped, sortLeaves, sortLeaves, node.leaves_mapped, sortLeaves_mapped nodes,
      List.map_append]

theorem orderLeaves_mapped :
    ∀ nodes : Option (List SortItem), orderLeaves (orderMapped change nodes)
      = (orderLeaves nodes).map change.leaf
  | none => rfl
  | some nodes => sortLeaves_mapped nodes

theorem Select.leaves_mapped :
    ∀ node : Select, (node.mapped change).leaves = node.leaves.map change.leaf
  | .mk spaces _ selections condition order limit offset => by
    rw [Select.mapped, Select.leaves, Select.leaves, spaceLeaves_mapped spaces,
      selectionLeaves_mapped selections, restrictionLeaves_mapped condition,
      orderLeaves_mapped order, optionalLeaves_mapped limit, optionalLeaves_mapped offset,
      List.map_append, List.map_append, List.map_append, List.map_append, List.map_append]

end

theorem Assignment.leaves_mapped (node : Assignment) :
    (node.mapped change).leaves = node.leaves.map change.leaf := by
  rw [Assignment.mapped, Assignment.leaves, Assignment.leaves, node.target.leaves_mapped,
    node.value.leaves_mapped, List.map_append]

/-- The leaves are exchanged one by one. -/
theorem Statement.leaves_mapped (statement : Statement) :
    (statement.mapped change).leaves = statement.leaves.map change.leaf := by
  have hassignments (nodes : List Assignment) :
      (nodes.map (Assignment.mapped change)).flatMap Assignment.leaves
        = (nodes.flatMap Assignment.leaves).map change.leaf := by
    rw [List.flatMap_map, List.map_flatMap]
    exact congrArg nodes.flatMap (funext Assignment.leaves_mapped)
  have hfields (nodes : List AttributeReference) :
      (nodes.map (AttributeReference.mapped change)).flatMap AttributeReference.leaves
        = (nodes.flatMap AttributeReference.leaves).map change.leaf := by
    rw [List.flatMap_map, List.map_flatMap]
    exact congrArg nodes.flatMap (funext AttributeReference.leaves_mapped)
  cases statement with
  | select query => exact query.leaves_mapped
  | update target assignments condition =>
    simp only [Statement.mapped, Statement.leaves, target.leaves_mapped, hassignments,
      restrictionLeaves_mapped condition, List.map_append]
  | delete target condition =>
    simp only [Statement.mapped, Statement.leaves, target.leaves_mapped,
      restrictionLeaves_mapped condition, List.map_append]
  | insert target stateFields query =>
    simp only [Statement.mapped, Statement.leaves, target.leaves_mapped, hfields,
      query.leaves_mapped, List.map_append]

end

/-! ## Trees that stay -/

mutual

theorem Expression.mapped_id : ∀ node : Expression, node.mapped {} = node
  | .literal _ => rfl
  | .parameter _ => rfl
  | .element _ => rfl
  | .entityType _ => rfl
  | .reference attained => by rw [Expression.mapped, attained.mapped_id]
  | .indexed attained => by rw [Expression.mapped, attained.mapped_id]
  | .constant _ _ _ => rfl
  | .mapEntry _ _ _ => rfl
  | .collectionFunction _ argument _ => by rw [Expression.mapped, argument.mapped_id]
  | .call _ _ _ _ arguments _ => by rw [Expression.mapped, expressionsMapped_id arguments]
  | .arithmetic _ left right _ => by rw [Expression.mapped, left.mapped_id, right.mapped_id]
  | .concatenation left right => by rw [Expression.mapped, left.mapped_id, right.mapped_id]
  | .unary _ operand => by rw [Expression.mapped, operand.mapped_id]
  | .simpleCase operand whens otherwise _ => by
    rw [Expression.mapped, operand.mapped_id, simpleWhensMapped_id whens,
      optionalMapped_id otherwise]
  | .searchedCase whens otherwise _ => by
    rw [Expression.mapped, searchedWhensMapped_id whens, optionalMapped_id otherwise]
  | .subquery nested => by rw [Expression.mapped, nested.mapped_id]
  | .selection _ _ _ => rfl
  | .instantiation _ arguments => by rw [Expression.mapped, argumentsMapped_id arguments]

theorem AttributeReference.mapped_id : ∀ node : AttributeReference, node.mapped {} = node
  | .mk source _ _ => by rw [AttributeReference.mapped, source.mapped_id]

theorem PathSource.mapped_id : ∀ node : PathSource, node.mapped {} = node
  | .element _ => rfl
  | .indexed attained => by rw [PathSource.mapped, attained.mapped_id]
  | .reference attained => by rw [PathSource.mapped, attained.mapped_id]

theorem IndexedReference.mapped_id : ∀ node : IndexedReference, node.mapped {} = node
  | .mk collection index _ => by rw [IndexedReference.mapped, collection.mapped_id, index.mapped_id]

theorem expressionsMapped_id : ∀ nodes : List Expression, expressionsMapped {} nodes = nodes
  | [] => rfl
  | node :: nodes => by rw [expressionsMapped, node.mapped_id, expressionsMapped_id nodes]

theorem optionalMapped_id : ∀ nodes : Option Expression, optionalMapped {} nodes = nodes
  | none => rfl
  | some node => congrArg some node.mapped_id

theorem SimpleWhen.mapped_id : ∀ node : SimpleWhen, node.mapped {} = node
  | .mk value result => by rw [SimpleWhen.mapped, value.mapped_id, result.mapped_id]

theorem simpleWhensMapped_id : ∀ nodes : List SimpleWhen, simpleWhensMapped {} nodes = nodes
  | [] => rfl
  | node :: nodes => by rw [simpleWhensMapped, node.mapped_id, simpleWhensMapped_id nodes]

theorem SearchedWhen.mapped_id : ∀ node : SearchedWhen, node.mapped {} = node
  | .mk condition result => by rw [SearchedWhen.mapped, condition.mapped_id, result.mapped_id]

theorem searchedWhensMapped_id : ∀ nodes : List SearchedWhen, searchedWhensMapped {} nodes = nodes
  | [] => rfl
  | node :: nodes => by rw [searchedWhensMapped, node.mapped_id, searchedWhensMapped_id nodes]

theorem Argument.mapped_id : ∀ node : Argument, node.mapped {} = node
  | .mk value _ => by rw [Argument.mapped, value.mapped_id]

theorem argumentsMapped_id : ∀ nodes : List Argument, argumentsMapped {} nodes = nodes
  | [] => rfl
  | node :: nodes => by rw [argumentsMapped, node.mapped_id, argumentsMapped_id nodes]

theorem Predicate.mapped_id : ∀ node : Predicate, node.mapped {} = node
  | .and left right => by rw [Predicate.mapped, left.mapped_id, right.mapped_id]
  | .or left right => by rw [Predicate.mapped, left.mapped_id, right.mapped_id]
  | .not inner => by rw [Predicate.mapped, inner.mapped_id]
  | .grouped inner => by rw [Predicate.mapped, inner.mapped_id]
  | .comparison _ left right => by rw [Predicate.mapped, left.mapped_id, right.mapped_id]
  | .between tested lower upper _ => by
    rw [Predicate.mapped, tested.mapped_id, lower.mapped_id, upper.mapped_id]
  | .like matched pattern escape _ => by
    rw [Predicate.mapped, matched.mapped_id, pattern.mapped_id, optionalMapped_id escape]
  | .inList tested items _ => by rw [Predicate.mapped, tested.mapped_id, expressionsMapped_id items]
  | .inSubquery tested nested _ => by rw [Predicate.mapped, tested.mapped_id, nested.mapped_id]
  | .isNull tested _ => by rw [Predicate.mapped, tested.mapped_id]
  | .isEmpty collection _ => by rw [Predicate.mapped, collection.mapped_id]
  | .memberOf plural other _ => by rw [Predicate.mapped, plural.mapped_id, other.mapped_id]
  | .existence nested _ => by rw [Predicate.mapped, nested.mapped_id]

theorem restrictionMapped_id : ∀ nodes : Option Predicate, restrictionMapped {} nodes = nodes
  | none => rfl
  | some node => congrArg some node.mapped_id

theorem Subquery.mapped_id : ∀ node : Subquery, node.mapped {} = node
  | .mk select _ => by rw [Subquery.mapped, select.mapped_id]

theorem Selection.mapped_id : ∀ node : Selection, node.mapped {} = node
  | .mk value _ => by rw [Selection.mapped, value.mapped_id]

theorem selectionsMapped_id : ∀ nodes : List Selection, selectionsMapped {} nodes = nodes
  | [] => rfl
  | node :: nodes => by rw [selectionsMapped, node.mapped_id, selectionsMapped_id nodes]

theorem Join.mapped_id : ∀ node : Join, node.mapped {} = node
  | .mk _ condition => by
    rw [Join.mapped, restrictionMapped_id condition]
    rfl

theorem joinsMapped_id : ∀ nodes : List Join, joinsMapped {} nodes = nodes
  | [] => rfl
  | node :: nodes => by rw [joinsMapped, node.mapped_id, joinsMapped_id nodes]

theorem Space.mapped_id : ∀ node : Space, node.mapped {} = node
  | .mk _ joins => by
    rw [Space.mapped, joinsMapped_id joins]
    rfl

theorem spacesMapped_id : ∀ nodes : List Space, spacesMapped {} nodes = nodes
  | [] => rfl
  | node :: nodes => by rw [spacesMapped, node.mapped_id, spacesMapped_id nodes]

theorem SortItem.mapped_id : ∀ node : SortItem, node.mapped {} = node
  | .mk value _ _ => by rw [SortItem.mapped, value.mapped_id]

theorem sortItemsMapped_id : ∀ nodes : List SortItem, sortItemsMapped {} nodes = nodes
  | [] => rfl
  | node :: nodes => by rw [sortItemsMapped, node.mapped_id, sortItemsMapped_id nodes]

theorem orderMapped_id : ∀ nodes : Option (List SortItem), orderMapped {} nodes = nodes
  | none => rfl
  | some nodes => congrArg some (sortItemsMapped_id nodes)

theorem Select.mapped_id : ∀ node : Select, node.mapped {} = node
  | .mk spaces _ selections condition order limit offset => by
    rw [Select.mapped, spacesMapped_id spaces, selectionsMapped_id selections,
      restrictionMapped_id condition, orderMapped_id order, optionalMapped_id limit,
      optionalMapped_id offset]

end

theorem Assignment.mapped_id (node : Assignment) : node.mapped {} = node := by
  rw [Assignment.mapped, node.target.mapped_id, node.value.mapped_id]

/-- Where every leaf stands for itself, so does the tree. -/
theorem Statement.mapped_id (statement : Statement) : statement.mapped {} = statement := by
  have hassignments (nodes : List Assignment) : nodes.map (Assignment.mapped {}) = nodes :=
    List.map_id'' Assignment.mapped_id nodes
  have hfields (nodes : List AttributeReference) :
      nodes.map (AttributeReference.mapped {}) = nodes :=
    List.map_id'' AttributeReference.mapped_id nodes
  cases statement with
  | select query => rw [Statement.mapped, query.mapped_id]
  | update target assignments condition =>
    rw [Statement.mapped, target.mapped_id, hassignments, restrictionMapped_id condition]
  | delete target condition =>
    rw [Statement.mapped, target.mapped_id, restrictionMapped_id condition]
  | insert target stateFields query =>
    rw [Statement.mapped, target.mapped_id, hfields, query.mapped_id]

end EntityQuery.Resolved

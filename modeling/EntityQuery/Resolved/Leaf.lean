import EntityQuery.Resolved.Tree

/-!
# Leaves

The leaves of a resolved query are the from elements, literals and parameters that it mentions, one
entry for every occurrence, in the order in which the clauses are read: spaces with the
restrictions of their joins, selections, restriction, order, limit and offset.

* `Statement.leaves`, `Select.leaves`.
* `Select.elements`: all elements that a query mentions, with all that these were reached by.
-/

namespace EntityQuery.Resolved

inductive Leaf where
  | element (element : FromElement)
  | literal (literal : Literal)
  | parameter (parameter : Phrase.Parameter)
  deriving DecidableEq, Repr

/-- The elements that an occurrence brings in. -/
def Leaf.chain : Leaf → List FromElement
  | .element bound => bound.chain
  | .literal _ => []
  | .parameter _ => []

mutual

def Expression.leaves : Expression → List Leaf
  | .literal token => [.literal token]
  | .parameter parameter => [.parameter parameter]
  | .element bound => [.element bound]
  | .entityType _ => []
  | .reference attained => attained.leaves
  | .indexed attained => attained.leaves
  | .constant _ _ _ => []
  | .mapEntry _ join _ => [.element join]
  | .collectionFunction _ argument _ => argument.leaves
  | .call _ _ _ _ arguments _ => expressionLeaves arguments
  | .arithmetic _ left right _ => left.leaves ++ right.leaves
  | .concatenation left right => left.leaves ++ right.leaves
  | .unary _ operand => operand.leaves
  | .simpleCase operand whens otherwise _ =>
    operand.leaves ++ simpleWhenLeaves whens ++ optionalLeaves otherwise
  | .searchedCase whens otherwise _ => searchedWhenLeaves whens ++ optionalLeaves otherwise
  | .subquery nested => nested.leaves
  | .selection _ _ _ => []
  | .instantiation _ arguments => argumentLeaves arguments

def AttributeReference.leaves : AttributeReference → List Leaf
  | .mk source _ _ => source.leaves

def PathSource.leaves : PathSource → List Leaf
  | .element bound => [.element bound]
  | .indexed attained => attained.leaves
  | .reference attained => attained.leaves

def IndexedReference.leaves : IndexedReference → List Leaf
  | .mk collection index _ => collection.leaves ++ index.leaves

def expressionLeaves : List Expression → List Leaf
  | [] => []
  | expression :: expressions => expression.leaves ++ expressionLeaves expressions

def optionalLeaves : Option Expression → List Leaf
  | none => []
  | some expression => expression.leaves

def SimpleWhen.leaves : SimpleWhen → List Leaf
  | .mk value result => value.leaves ++ result.leaves

def simpleWhenLeaves : List SimpleWhen → List Leaf
  | [] => []
  | branch :: branches => branch.leaves ++ simpleWhenLeaves branches

def SearchedWhen.leaves : SearchedWhen → List Leaf
  | .mk condition result => condition.leaves ++ result.leaves

def searchedWhenLeaves : List SearchedWhen → List Leaf
  | [] => []
  | branch :: branches => branch.leaves ++ searchedWhenLeaves branches

def Argument.leaves : Argument → List Leaf
  | .mk expression _ => expression.leaves

def argumentLeaves : List Argument → List Leaf
  | [] => []
  | argument :: arguments => argument.leaves ++ argumentLeaves arguments

def Predicate.leaves : Predicate → List Leaf
  | .and left right => left.leaves ++ right.leaves
  | .or left right => left.leaves ++ right.leaves
  | .not inner => inner.leaves
  | .grouped inner => inner.leaves
  | .comparison _ left right => left.leaves ++ right.leaves
  | .between expression lower upper _ => expression.leaves ++ lower.leaves ++ upper.leaves
  | .like matched pattern escape _ => matched.leaves ++ pattern.leaves ++ optionalLeaves escape
  | .inList expression items _ => expression.leaves ++ expressionLeaves items
  | .inSubquery expression nested _ => expression.leaves ++ nested.leaves
  | .isNull expression _ => expression.leaves
  | .isEmpty collection _ => collection.leaves
  | .memberOf plural other _ => plural.leaves ++ other.leaves
  | .existence nested _ => nested.leaves

def restrictionLeaves : Option Predicate → List Leaf
  | none => []
  | some predicate => predicate.leaves

def Subquery.leaves : Subquery → List Leaf
  | .mk select _ => select.leaves

def Selection.leaves : Selection → List Leaf
  | .mk expression _ => expression.leaves

def selectionLeaves : List Selection → List Leaf
  | [] => []
  | selection :: selections => selection.leaves ++ selectionLeaves selections

def Join.leaves : Join → List Leaf
  | .mk element restriction => .element element :: restrictionLeaves restriction

def joinLeaves : List Join → List Leaf
  | [] => []
  | join :: joins => join.leaves ++ joinLeaves joins

def Space.leaves : Space → List Leaf
  | .mk root joins => .element root :: joinLeaves joins

def spaceLeaves : List Space → List Leaf
  | [] => []
  | space :: spaces => space.leaves ++ spaceLeaves spaces

def SortItem.leaves : SortItem → List Leaf
  | .mk expression _ _ => expression.leaves

def sortLeaves : List SortItem → List Leaf
  | [] => []
  | item :: items => item.leaves ++ sortLeaves items

def orderLeaves : Option (List SortItem) → List Leaf
  | none => []
  | some items => sortLeaves items

def Select.leaves : Select → List Leaf
  | .mk spaces _ selections restriction order limit offset =>
    spaceLeaves spaces ++ selectionLeaves selections ++ restrictionLeaves restriction
      ++ orderLeaves order ++ optionalLeaves limit ++ optionalLeaves offset

end

def Assignment.leaves (assignment : Assignment) : List Leaf :=
  assignment.target.leaves ++ assignment.value.leaves

def Statement.leaves : Statement → List Leaf
  | .select query => query.leaves
  | .update target assignments restriction =>
    target.leaves ++ assignments.flatMap Assignment.leaves ++ restrictionLeaves restriction
  | .delete target restriction => target.leaves ++ restrictionLeaves restriction
  | .insert target stateFields query =>
    target.leaves ++ stateFields.flatMap AttributeReference.leaves ++ query.leaves

/-- The elements that leaves bring in. -/
def leafElements (leaves : List Leaf) : List FromElement := leaves.flatMap Leaf.chain

namespace Select

def elements (select : Select) : List FromElement := leafElements select.leaves

/-- The greatest number of an element that the query mentions. -/
def greatestUid (select : Select) : Nat :=
  (select.elements.map FromElement.uid).foldl max 0

end Select

namespace Statement

def elements (statement : Statement) : List FromElement := leafElements statement.leaves

end Statement
end EntityQuery.Resolved

import EntityQuery.Resolved.Tree

/-!
# Traversals

A traversal visits every node of a resolved query once and builds the query anew from what the
visits hand back. Clauses are visited in the order in which they are read, spaces first, because
everything else refers to the elements that spaces bring in. Elements are handed over as they are:
what a join starts from and what a narrowed element narrows is not visited.

* `Traversal`: what happens at the nodes.
* `Statement.traverse`, `Select.traverse`, `Expression.traverse`: the traversal of a tree.
-/

namespace EntityQuery.Resolved

/-- The kinds of inner nodes. -/
inductive NodeKind where
  | statement
  | select
  | update
  | delete
  | insert
  | assignment
  | query
  | spaces
  | space
  | join
  | selections
  | selection
  | order
  | sortItem
  | predicate
  | expression
  | reference
  | indexed
  | call
  | subquery
  | instantiation
  deriving DecidableEq, Repr

/-- What a traversal does. The last three change a node after its children were visited. -/
structure Traversal (m : Type → Type) [Monad m] where
  enter : NodeKind → m Unit := fun _ => pure ()
  leave : NodeKind → m Unit := fun _ => pure ()
  onElement : FromElement → m FromElement := pure
  onLiteral : Literal → m Literal := pure
  onParameter : Phrase.Parameter → m Phrase.Parameter := pure
  adjustExpression : Expression → Expression := id
  adjustSubquery : Subquery → Subquery := id
  adjustSelect : Select → Select := id

namespace Traversal

variable {m : Type → Type} [Monad m]

/-- The traversal that changes nothing. -/
def plain : Traversal m := {}

/-- A visit between entering and leaving a node. -/
def inside {α : Type} (hooks : Traversal m) (kind : NodeKind) (visit : m α) : m α := do
  hooks.enter kind
  let result ← visit
  hooks.leave kind
  return result

end Traversal

section

variable {m : Type → Type} [Monad m] (hooks : Traversal m)

mutual

/-- The children of an expression visited. -/
def Expression.traverse : Expression → m Expression
  | .literal token => hooks.inside .expression do
    return hooks.adjustExpression (.literal (← hooks.onLiteral token))
  | .parameter parameter => hooks.inside .expression do
    return hooks.adjustExpression (.parameter (← hooks.onParameter parameter))
  | .element bound => hooks.inside .expression do
    return hooks.adjustExpression (.element (← hooks.onElement bound))
  | .entityType entity => hooks.inside .expression do
    return hooks.adjustExpression (.entityType entity)
  | .reference attained => hooks.inside .expression do
    return hooks.adjustExpression (.reference (← attained.traverse))
  | .indexed attained => hooks.inside .expression do
    return hooks.adjustExpression (.indexed (← attained.traverse))
  | .constant owner member type => hooks.inside .expression do
    return hooks.adjustExpression (.constant owner member type)
  | .mapEntry function join type? => hooks.inside .expression do
    return hooks.adjustExpression (.mapEntry function (← hooks.onElement join) type?)
  | .collectionFunction function argument type? => hooks.inside .expression do
    return hooks.adjustExpression (.collectionFunction function (← argument.traverse) type?)
  | .call name distinct star standard arguments type? => hooks.inside .expression do
    let arguments ← hooks.inside .call (traverseExpressions arguments)
    return hooks.adjustExpression (.call name distinct star standard arguments type?)
  | .arithmetic operator left right type? => hooks.inside .expression do
    let left ← left.traverse
    let right ← right.traverse
    return hooks.adjustExpression (.arithmetic operator left right type?)
  | .concatenation left right => hooks.inside .expression do
    let left ← left.traverse
    let right ← right.traverse
    return hooks.adjustExpression (.concatenation left right)
  | .unary sign operand => hooks.inside .expression do
    return hooks.adjustExpression (.unary sign (← operand.traverse))
  | .simpleCase operand whens otherwise type? => hooks.inside .expression do
    let operand ← operand.traverse
    let whens ← traverseSimpleWhens whens
    let otherwise ← traverseOptional otherwise
    return hooks.adjustExpression (.simpleCase operand whens otherwise type?)
  | .searchedCase whens otherwise type? => hooks.inside .expression do
    let whens ← traverseSearchedWhens whens
    let otherwise ← traverseOptional otherwise
    return hooks.adjustExpression (.searchedCase whens otherwise type?)
  | .subquery nested => hooks.inside .expression do
    return hooks.adjustExpression (.subquery (← nested.traverse))
  | .selection aliasName position type? => hooks.inside .expression do
    return hooks.adjustExpression (.selection aliasName position type?)
  | .instantiation target arguments => hooks.inside .expression do
    let arguments ← hooks.inside .instantiation (traverseArguments arguments)
    return hooks.adjustExpression (.instantiation target arguments)

def AttributeReference.traverse : AttributeReference → m AttributeReference
  | .mk source declared type => hooks.inside .reference do
    return .mk (← source.traverse) declared type

def PathSource.traverse : PathSource → m PathSource
  | .element bound => return .element (← hooks.onElement bound)
  | .indexed attained => return .indexed (← attained.traverse)
  | .reference attained => return .reference (← attained.traverse)

def IndexedReference.traverse : IndexedReference → m IndexedReference
  | .mk collection index type => hooks.inside .indexed do
    let collection ← collection.traverse
    let index ← index.traverse
    return .mk collection index type

def traverseExpressions : List Expression → m (List Expression)
  | [] => return []
  | expression :: expressions => do
    let expression ← expression.traverse
    return expression :: (← traverseExpressions expressions)

def traverseOptional : Option Expression → m (Option Expression)
  | none => return none
  | some expression => return some (← expression.traverse)

def SimpleWhen.traverse : SimpleWhen → m SimpleWhen
  | .mk value result => do
    let value ← value.traverse
    let result ← result.traverse
    return .mk value result

def traverseSimpleWhens : List SimpleWhen → m (List SimpleWhen)
  | [] => return []
  | branch :: branches => do
    let branch ← branch.traverse
    return branch :: (← traverseSimpleWhens branches)

def SearchedWhen.traverse : SearchedWhen → m SearchedWhen
  | .mk condition result => do
    let condition ← condition.traverse
    let result ← result.traverse
    return .mk condition result

def traverseSearchedWhens : List SearchedWhen → m (List SearchedWhen)
  | [] => return []
  | branch :: branches => do
    let branch ← branch.traverse
    return branch :: (← traverseSearchedWhens branches)

def Argument.traverse : Argument → m Argument
  | .mk expression alias? => return .mk (← expression.traverse) alias?

def traverseArguments : List Argument → m (List Argument)
  | [] => return []
  | argument :: arguments => do
    let argument ← argument.traverse
    return argument :: (← traverseArguments arguments)

def Predicate.traverse : Predicate → m Predicate
  | .and left right => hooks.inside .predicate do
    let left ← left.traverse
    let right ← right.traverse
    return .and left right
  | .or left right => hooks.inside .predicate do
    let left ← left.traverse
    let right ← right.traverse
    return .or left right
  | .not inner => hooks.inside .predicate do
    return .not (← inner.traverse)
  | .grouped inner => hooks.inside .predicate do
    return .grouped (← inner.traverse)
  | .comparison operator left right => hooks.inside .predicate do
    let left ← left.traverse
    let right ← right.traverse
    return .comparison operator left right
  | .between expression lower upper negated => hooks.inside .predicate do
    let expression ← expression.traverse
    let lower ← lower.traverse
    let upper ← upper.traverse
    return .between expression lower upper negated
  | .like matched pattern escape negated => hooks.inside .predicate do
    let matched ← matched.traverse
    let pattern ← pattern.traverse
    let escape ← traverseOptional escape
    return .like matched pattern escape negated
  | .inList expression items negated => hooks.inside .predicate do
    let expression ← expression.traverse
    let items ← traverseExpressions items
    return .inList expression items negated
  | .inSubquery expression nested negated => hooks.inside .predicate do
    let expression ← expression.traverse
    let nested ← nested.traverse
    return .inSubquery expression nested negated
  | .isNull expression negated => hooks.inside .predicate do
    return .isNull (← expression.traverse) negated
  | .isEmpty collection negated => hooks.inside .predicate do
    return .isEmpty (← collection.traverse) negated
  | .memberOf plural other negated => hooks.inside .predicate do
    let plural ← plural.traverse
    let other ← other.traverse
    return .memberOf plural other negated
  | .existence nested negated => hooks.inside .predicate do
    return .existence (← nested.traverse) negated

def traverseRestriction : Option Predicate → m (Option Predicate)
  | none => return none
  | some predicate => return some (← predicate.traverse)

def Subquery.traverse : Subquery → m Subquery
  | .mk select type? => hooks.inside .subquery do
    return hooks.adjustSubquery (.mk (← select.traverse) type?)

def Selection.traverse : Selection → m Selection
  | .mk expression alias? => hooks.inside .selection do
    return .mk (← expression.traverse) alias?

def traverseSelections : List Selection → m (List Selection)
  | [] => return []
  | selection :: selections => do
    let selection ← selection.traverse
    return selection :: (← traverseSelections selections)

def Join.traverse : Join → m Join
  | .mk element restriction => hooks.inside .join do
    let element ← hooks.onElement element
    let restriction ← traverseRestriction restriction
    return .mk element restriction

def traverseJoins : List Join → m (List Join)
  | [] => return []
  | join :: joins => do
    let join ← join.traverse
    return join :: (← traverseJoins joins)

def Space.traverse : Space → m Space
  | .mk root joins => hooks.inside .space do
    let root ← hooks.onElement root
    let joins ← traverseJoins joins
    return .mk root joins

def traverseSpaces : List Space → m (List Space)
  | [] => return []
  | space :: spaces => do
    let space ← space.traverse
    return space :: (← traverseSpaces spaces)

def SortItem.traverse : SortItem → m SortItem
  | .mk expression collation order => hooks.inside .sortItem do
    return .mk (← expression.traverse) collation order

def traverseSortItems : List SortItem → m (List SortItem)
  | [] => return []
  | item :: items => do
    let item ← item.traverse
    return item :: (← traverseSortItems items)

def traverseOrder : Option (List SortItem) → m (Option (List SortItem))
  | none => return none
  | some items => return some (← hooks.inside .order (traverseSortItems items))

def Select.traverse : Select → m Select
  | .mk spaces distinct selections restriction order limit offset =>
    hooks.inside .select do
      let (spaces, selections, restriction) ← hooks.inside .query do
        let spaces ← hooks.inside .spaces (traverseSpaces spaces)
        let selections ← hooks.inside .selections (traverseSelections selections)
        let restriction ← traverseRestriction restriction
        return (spaces, selections, restriction)
      let order ← traverseOrder order
      let limit ← traverseOptional limit
      let offset ← traverseOptional offset
      return hooks.adjustSelect (.mk spaces distinct selections restriction order limit offset)

end

def Assignment.traverse (assignment : Assignment) : m Assignment :=
  hooks.inside .assignment do
    let target ← assignment.target.traverse hooks
    let value ← assignment.value.traverse hooks
    return ⟨target, value⟩

def Statement.traverse : Statement → m Statement
  | .select query => hooks.inside .statement do
    return .select (← query.traverse hooks)
  | .update target assignments restriction => hooks.inside .statement do
    hooks.inside .update do
      let target ← target.traverse hooks
      let assignments ← assignments.mapM (Assignment.traverse hooks)
      let restriction ← traverseRestriction hooks restriction
      return .update target assignments restriction
  | .delete target restriction => hooks.inside .statement do
    hooks.inside .delete do
      let target ← target.traverse hooks
      let restriction ← traverseRestriction hooks restriction
      return .delete target restriction
  | .insert target stateFields query => hooks.inside .statement do
    hooks.inside .insert do
      let target ← target.traverse hooks
      let stateFields ← stateFields.mapM (AttributeReference.traverse hooks)
      let query ← query.traverse hooks
      return .insert target stateFields query

end

end EntityQuery.Resolved

import EntityQuery.Resolved.Tree

/-!
# What a clause mentions itself

The from elements that an expression or a predicate mentions outside the queries that are nested in
it, one entry for each mention.

* `Predicate.ownElements`, `Expression.ownElements`: these elements.
* `Select.Secluded`: the restrictions of joins mention no element of another space of their query.
-/

namespace EntityQuery.Resolved

mutual

/-- The elements that the expression mentions outside nested queries. -/
def Expression.ownElements : Expression → List FromElement
  | .literal _ => []
  | .parameter _ => []
  | .element bound => [bound]
  | .entityType _ => []
  | .reference attained => attained.ownElements
  | .indexed attained => attained.ownElements
  | .constant _ _ _ => []
  | .mapEntry _ join _ => [join]
  | .collectionFunction _ argument _ => argument.ownElements
  | .call _ _ _ _ arguments _ => ownOfExpressions arguments
  | .arithmetic _ left right _ => left.ownElements ++ right.ownElements
  | .concatenation left right => left.ownElements ++ right.ownElements
  | .unary _ operand => operand.ownElements
  | .simpleCase operand whens otherwise _ =>
    operand.ownElements ++ ownOfSimpleWhens whens ++ ownOfOptional otherwise
  | .searchedCase whens otherwise _ => ownOfSearchedWhens whens ++ ownOfOptional otherwise
  | .subquery _ => []
  | .selection _ _ _ => []
  | .instantiation _ arguments => ownOfArguments arguments

def AttributeReference.ownElements : AttributeReference → List FromElement
  | .mk source _ _ => source.ownElements

def PathSource.ownElements : PathSource → List FromElement
  | .element bound => [bound]
  | .indexed attained => attained.ownElements
  | .reference attained => attained.ownElements

def IndexedReference.ownElements : IndexedReference → List FromElement
  | .mk collection index _ => collection.ownElements ++ index.ownElements

def ownOfExpressions : List Expression → List FromElement
  | [] => []
  | expression :: expressions => expression.ownElements ++ ownOfExpressions expressions

def ownOfOptional : Option Expression → List FromElement
  | none => []
  | some expression => expression.ownElements

def SimpleWhen.ownElements : SimpleWhen → List FromElement
  | .mk value result => value.ownElements ++ result.ownElements

def ownOfSimpleWhens : List SimpleWhen → List FromElement
  | [] => []
  | branch :: branches => branch.ownElements ++ ownOfSimpleWhens branches

def SearchedWhen.ownElements : SearchedWhen → List FromElement
  | .mk condition result => condition.ownElements ++ result.ownElements

def ownOfSearchedWhens : List SearchedWhen → List FromElement
  | [] => []
  | branch :: branches => branch.ownElements ++ ownOfSearchedWhens branches

def Argument.ownElements : Argument → List FromElement
  | .mk expression _ => expression.ownElements

def ownOfArguments : List Argument → List FromElement
  | [] => []
  | argument :: arguments => argument.ownElements ++ ownOfArguments arguments

/-- The elements that the predicate mentions outside nested queries. -/
def Predicate.ownElements : Predicate → List FromElement
  | .and left right => left.ownElements ++ right.ownElements
  | .or left right => left.ownElements ++ right.ownElements
  | .not inner => inner.ownElements
  | .grouped inner => inner.ownElements
  | .comparison _ left right => left.ownElements ++ right.ownElements
  | .between expression lower upper _ =>
    expression.ownElements ++ lower.ownElements ++ upper.ownElements
  | .like matched pattern escape _ =>
    matched.ownElements ++ pattern.ownElements ++ ownOfOptional escape
  | .inList expression items _ => expression.ownElements ++ ownOfExpressions items
  | .inSubquery expression _ _ => expression.ownElements
  | .isNull expression _ => expression.ownElements
  | .isEmpty collection _ => collection.ownElements
  | .memberOf plural other _ => plural.ownElements ++ other.ownElements
  | .existence _ _ => []

end

/-- The elements that the restriction of the join mentions outside nested queries. -/
def Join.ownElements (join : Join) : List FromElement :=
  (join.restriction.map Predicate.ownElements).getD []

/-- What the restriction of a join mentions outside nested queries stands in no other space of the
query. -/
def Select.Secluded (select : Select) : Prop :=
  ∀ front space back, select.spaces = front ++ space :: back → ∀ join ∈ space.joins,
    ∀ element ∈ join.ownElements, ∀ other ∈ front ++ back, element.unwrapped ∉ other.elements

end EntityQuery.Resolved

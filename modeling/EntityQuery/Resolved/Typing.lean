import EntityQuery.Resolved.Tree

/-!
# Types of resolved expressions

* `Expression.type?`: the type of an expression, read off its node.
* `firstTyped`, `caseType?`, `selectionType?`, `Catalogue.resultType?`: how the types that are kept
  in nodes follow from those of the children.
* `Expression.retyped`, `Subquery.retyped`, `Select.retyped`: a node whose own type is inferred
  again from its children.
-/

namespace EntityQuery.Resolved

namespace Target

/-- The type of an instantiation: a class stands for itself, lists and maps have no type. -/
def type? : Target → Option TypeDescriptor
  | list => none
  | map => none
  | hostClass made => some (.basic (.named made.name))

end Target

namespace Expression

/-- The type of an expression, if it has one. -/
def type? : Expression → Option TypeDescriptor
  | literal token => token.value.type?.map TypeDescriptor.basic
  | parameter _ => none
  | element bound => some bound.type
  | entityType entity => some entity.type
  | reference attained => some attained.type
  | indexed attained => some attained.type
  | constant _ _ type => some (.basic type)
  | mapEntry _ _ type? => type?
  | collectionFunction _ _ type? => type?
  | call _ _ _ _ _ type? => type?
  | arithmetic _ _ _ type? => type?
  | concatenation _ _ => some (.basic .string)
  | unary _ operand => operand.type?
  | simpleCase _ _ _ type? => type?
  | searchedCase _ _ type? => type?
  | subquery nested => nested.type?
  | selection _ _ type? => type?
  | instantiation target _ => target.type?

end Expression

/-- The type of the first expression that has one. -/
def firstTyped (expressions : List Expression) : Option TypeDescriptor :=
  expressions.findSome? Expression.type?

namespace SimpleWhen

def result : SimpleWhen → Expression
  | mk _ result => result

end SimpleWhen

namespace SearchedWhen

def result : SearchedWhen → Expression
  | mk _ result => result

end SearchedWhen

/-- The type of a case: that of its first result that has one. -/
def caseType? (results : List Expression) (otherwise : Option Expression) :
    Option TypeDescriptor :=
  firstTyped (results ++ otherwise.toList)

/-- The type at a position of a selection. -/
def selectionType? (selections : List Selection) (position : Nat) : Option TypeDescriptor :=
  selections[position]?.bind fun selection => selection.expression.type?

namespace Select

def selectionType? (select : Select) (position : Nat) : Option TypeDescriptor :=
  Resolved.selectionType? select.selections position

end Select

/-! ## Inferring again -/

namespace Expression

/-- The expression with its own type inferred from its children, where it follows from them. -/
def retyped : Expression → Expression
  | arithmetic operator left right _ =>
    arithmetic operator left right (Catalogue.arithmeticType? left.type? right.type?)
  | call name distinct star true arguments _ =>
    call name distinct star true arguments
      (Catalogue.resultType? name (arguments.map Expression.type?))
  | simpleCase operand whens otherwise _ =>
    simpleCase operand whens otherwise (caseType? (whens.map SimpleWhen.result) otherwise)
  | searchedCase whens otherwise _ =>
    searchedCase whens otherwise (caseType? (whens.map SearchedWhen.result) otherwise)
  | expression => expression

end Expression

namespace Subquery

/-- A query used as a value; its type is that of its first selection. -/
def ofSelect (select : Select) : Subquery := mk select (select.selectionType? 0)

/-- The subquery with the type of its first selection. -/
def retyped (subquery : Subquery) : Subquery := ofSelect subquery.select

end Subquery

namespace SortItem

/-- The item with the type that its result variable has in a selection. -/
def retyped (selections : List Selection) : SortItem → SortItem
  | mk (.selection aliasName position _) collation order =>
    mk (.selection aliasName position (selectionType? selections position)) collation order
  | item => item

end SortItem

namespace Select

/-- The query whose order has the types of its selection. -/
def retyped : Select → Select
  | mk spaces distinct selections restriction order limit offset =>
    mk spaces distinct selections restriction
      (order.map fun items => items.map (SortItem.retyped selections)) limit offset

end Select
end EntityQuery.Resolved

import EntityQuery.Domain.ConfigurationText
import EntityQuery.Exchange.Word
import EntityQuery.Resolved.Leaf
import EntityQuery.Resolved.Narrowing
import EntityQuery.Resolved.Typing

/-!
# Writing resolved statements

A resolved statement is written with a table of its from elements, in the order of their numbers;
elsewhere an element is written as its number. Every expression is written with its type.

* `Resolved.Statement.toJson`, `Resolved.Select.toJson`, `Resolved.Expression.toJson`.
* `elementTable`: the table of elements, with the entities that they were narrowed to.
-/

namespace EntityQuery

def TypeDescriptor.toJson : TypeDescriptor → Json
  | .basic scalar => Json.ofMembers [("basic", scalar.toJson)]
  | .entity mapped => Json.ofMembers [("entity", Json.ofText mapped.name)]
  | .polymorphic named => Json.ofMembers
      [("polymorphic", Json.ofText named.name),
        ("implementors", Json.ofList (fun entity => Json.ofText entity.name) named.implementors)]
  | .composite embedded => Json.ofMembers [("composite", Json.ofText embedded.name)]
  | .collection kind element => Json.ofMembers
      [("collection", Json.ofText kind.written), ("index", .null), ("element", element.toJson)]
  | .indexed kind index element => Json.ofMembers
      [("collection", Json.ofText kind.written), ("index", index.toJson),
        ("element", element.toJson)]

/-! ## Elements -/

namespace FromElement

/-- The number of an element. -/
def uidJson (element : FromElement) : Json := Json.ofNat element.uid

/-- How an element came about. -/
def kindJson : FromElement → Json
  | root _ => Json.tagged "Root" []
  | crossJoin _ => Json.tagged "CrossJoin" []
  | entityJoin _ _ => Json.tagged "EntityJoin" []
  | attributeJoin _ source join => Json.tagged "AttributeJoin"
      [("source", source.uidJson), ("attribute", Json.ofText join.declared.name),
        ("attribute_type", join.type.toJson), ("fetched", .bool join.fetched),
        ("implicit", .bool join.implicit), ("path", Json.ofText join.path)]
  | treated _ (attributeJoin binding _ _) =>
    Json.tagged "TreatedAttributeJoin" [("wrapped", Json.ofNat binding.uid)]
  | treated _ wrapped => Json.tagged "TreatedRoot" [("wrapped", wrapped.uidJson)]

/-- The entry of an element in the table, with the entities that it was narrowed to. -/
def members (narrowings : Narrowings) (element : FromElement) : List (String × Json) :=
  [("uid", element.uidJson), ("alias", Json.ofText element.aliasName),
    ("generated", .bool element.binding.generated), ("type", element.type.toJson),
    ("kind", element.kindJson),
    ("join_type", Json.ofOption (fun joinType => Json.ofText joinType.text) element.joinType?),
    ("collection", Json.ofOption TypeDescriptor.toJson element.collection?),
    ("treated_as", Json.ofList (fun target => Json.ofText target.name)
      (narrowings.of element.uid))]

def toJson (narrowings : Narrowings) (element : FromElement) : Json :=
  Json.ofMembers (element.members narrowings)

/-- Puts an element at the place of its number, unless the number is there. -/
def insertByUid (element : FromElement) : List FromElement → List FromElement
  | [] => [element]
  | first :: rest =>
    if element.uid < first.uid then element :: first :: rest
    else if element.uid = first.uid then first :: rest
    else first :: insertByUid element rest

end FromElement

/-- The elements in the order of their numbers, each once. -/
def elementTable (narrowings : Narrowings) (elements : List FromElement) : Json :=
  Json.ofList (FromElement.toJson narrowings)
    (elements.foldl (fun table element => element.insertByUid table) [])

namespace Resolved

/-! ## Expressions -/

def Target.toJson : Target → Json
  | .list => Json.ofText "List"
  | .map => Json.ofText "Map"
  | .hostClass made => Json.ofMembers [("class", Json.ofText made.name)]

/-- A type, or null. -/
def typeJson (type? : Option TypeDescriptor) : Json := Json.ofOption TypeDescriptor.toJson type?

namespace Expression

/-- The form that an expression is written with. -/
def form : Expression → String
  | literal _ => "Literal"
  | parameter _ => "Parameter"
  | element _ => "FromElement"
  | entityType _ => "EntityType"
  | reference _ => "Attribute"
  | indexed _ => "Indexed"
  | constant _ _ _ => "Constant"
  | mapEntry _ _ _ => "MapEntry"
  | collectionFunction _ _ _ => "CollectionFunction"
  | call _ _ _ _ _ _ => "Function"
  | arithmetic _ _ _ _ => "Arithmetic"
  | concatenation _ _ => "Concatenation"
  | unary _ _ => "Unary"
  | simpleCase _ _ _ _ => "SimpleCase"
  | searchedCase _ _ _ => "SearchedCase"
  | subquery _ => "SubQuery"
  | selection _ _ _ => "SelectionReference"
  | instantiation _ _ => "DynamicInstantiation"

/-- The members of an expression: its form, its type and what its form says. -/
def withParts (expression : Expression) (parts : List (String × Json)) : List (String × Json) :=
  ("t", Json.ofText expression.form) :: ("type", typeJson expression.type?) :: parts

end Expression

namespace Predicate

/-- The form that a predicate is written with. -/
def form : Predicate → String
  | and _ _ => "And"
  | or _ _ => "Or"
  | not _ => "Negated"
  | grouped _ => "Grouped"
  | comparison _ _ _ => "Comparison"
  | between _ _ _ _ => "Between"
  | like _ _ _ _ => "Like"
  | inList _ _ _ => "InList"
  | inSubquery _ _ _ => "InSubQuery"
  | isNull _ _ => "IsNull"
  | isEmpty _ _ => "IsEmpty"
  | memberOf _ _ _ => "MemberOf"
  | existence _ _ => "Exists"

/-- A predicate with its form, whether it is negated and what its form says. -/
def withParts (predicate : Predicate) (parts : List (String × Json)) : Json :=
  Json.tagged predicate.form (("negated", .bool predicate.isNegated) :: parts)

end Predicate

/-- An attribute or an element of a collection with its type. -/
def withType (type : TypeDescriptor) (parts : List (String × Json)) : Json :=
  Json.ofMembers (("type", type.toJson) :: parts)

mutual

def Expression.members : Expression → List (String × Json)
  | expression@(.literal token) => expression.withParts
      [("value", Json.ofText token.value.text), ("text", Json.ofText token.text)]
  | expression@(.parameter (.named name)) => expression.withParts [("name", Json.ofText name)]
  | expression@(.parameter (.positional position)) =>
    expression.withParts [("position", Json.ofNat position)]
  | expression@(.element bound) => expression.withParts [("element", bound.uidJson)]
  | expression@(.entityType entity) => expression.withParts [("entity", Json.ofText entity.name)]
  | expression@(.reference attained) => expression.withParts attained.parts
  | expression@(.indexed attained) => expression.withParts attained.parts
  | expression@(.constant owner member _) => expression.withParts
      [("class", Json.ofText owner.name), ("member", Json.ofText member)]
  | expression@(.mapEntry function join _) => expression.withParts
      [("function", Json.ofText function.word), ("join", join.uidJson)]
  | expression@(.collectionFunction function argument _) => expression.withParts
      [("function", Json.ofText function.text), ("argument", Json.ofMembers argument.members)]
  | expression@(.call name distinct star standard arguments _) => expression.withParts
      [("name", Json.ofText name), ("distinct", .bool distinct), ("star", .bool star),
        ("standard", .bool standard), ("arguments", .array (expressionsToJson arguments))]
  | expression@(.arithmetic operator left right _) => expression.withParts
      [("operator", Json.ofText operator.symbol), ("left", Json.ofMembers left.members),
        ("right", Json.ofMembers right.members)]
  | expression@(.concatenation left right) => expression.withParts
      [("left", Json.ofMembers left.members), ("right", Json.ofMembers right.members)]
  | expression@(.unary sign operand) => expression.withParts
      [("operator", Json.ofText sign.word), ("operand", Json.ofMembers operand.members)]
  | expression@(.simpleCase operand whens otherwise _) => expression.withParts
      [("operand", Json.ofMembers operand.members), ("whens", .array (simpleWhensToJson whens)),
        ("otherwise", optionalToJson otherwise)]
  | expression@(.searchedCase whens otherwise _) => expression.withParts
      [("whens", .array (searchedWhensToJson whens)), ("otherwise", optionalToJson otherwise)]
  | expression@(.subquery (.mk select _)) =>
    expression.withParts [("query", Json.ofMembers select.members)]
  | expression@(.selection aliasName position _) => expression.withParts
      [("alias", Json.ofText aliasName), ("position", Json.ofNat position)]
  | expression@(.instantiation target arguments) => expression.withParts
      [("target", target.toJson), ("arguments", .array (argumentsToJson arguments))]

def expressionsToJson : List Expression → List Json
  | [] => []
  | expression :: expressions =>
    Json.ofMembers expression.members :: expressionsToJson expressions

def optionalToJson : Option Expression → Json
  | none => .null
  | some expression => Json.ofMembers expression.members

/-- What an attribute is written with beside its type. -/
def AttributeReference.parts : AttributeReference → List (String × Json)
  | attained@(.mk source declared _) =>
    [("source", source.toJson), ("attribute", Json.ofText declared.name),
      ("root", attained.sourceElement.uidJson)]

def PathSource.toJson : PathSource → Json
  | .element bound => Json.ofMembers [("element", bound.uidJson)]
  | .indexed attained => Json.ofMembers [("indexed", withType attained.type attained.parts)]
  | .reference attained => Json.ofMembers [("attribute", withType attained.type attained.parts)]

/-- What an element of a collection is written with beside its type. -/
def IndexedReference.parts : IndexedReference → List (String × Json)
  | .mk collection index _ =>
    [("collection", withType collection.type collection.parts),
      ("index", Json.ofMembers index.members)]

def simpleWhensToJson : List SimpleWhen → List Json
  | [] => []
  | .mk value result :: whens =>
    Json.ofMembers
      [("value", Json.ofMembers value.members), ("result", Json.ofMembers result.members)]
      :: simpleWhensToJson whens

def searchedWhensToJson : List SearchedWhen → List Json
  | [] => []
  | .mk condition result :: whens =>
    Json.ofMembers [("condition", condition.toJson), ("result", Json.ofMembers result.members)]
      :: searchedWhensToJson whens

def argumentsToJson : List Argument → List Json
  | [] => []
  | .mk expression alias? :: arguments =>
    Json.ofMembers
      [("expression", Json.ofMembers expression.members),
        ("alias", Json.ofOption Json.ofText alias?)]
      :: argumentsToJson arguments

def Predicate.toJson : Predicate → Json
  | predicate@(.and left right) =>
    predicate.withParts [("left", left.toJson), ("right", right.toJson)]
  | predicate@(.or left right) =>
    predicate.withParts [("left", left.toJson), ("right", right.toJson)]
  | predicate@(.not inner) => predicate.withParts [("inner", inner.toJson)]
  | predicate@(.grouped inner) => predicate.withParts [("inner", inner.toJson)]
  | predicate@(.comparison operator left right) => predicate.withParts
      [("left", Json.ofMembers left.members), ("operator", Json.ofText operator.symbol),
        ("right", Json.ofMembers right.members)]
  | predicate@(.between expression lower upper _) => predicate.withParts
      [("expression", Json.ofMembers expression.members),
        ("lower", Json.ofMembers lower.members), ("upper", Json.ofMembers upper.members)]
  | predicate@(.like matched pattern escape _) => predicate.withParts
      [("matched", Json.ofMembers matched.members), ("pattern", Json.ofMembers pattern.members),
        ("escape", optionalToJson escape)]
  | predicate@(.inList expression items _) => predicate.withParts
      [("expression", Json.ofMembers expression.members),
        ("list", .array (expressionsToJson items))]
  | predicate@(.inSubquery expression nested _) => predicate.withParts
      [("expression", Json.ofMembers expression.members), ("subquery", nested.toJson)]
  | predicate@(.isNull expression _) =>
    predicate.withParts [("expression", Json.ofMembers expression.members)]
  | predicate@(.isEmpty collection _) =>
    predicate.withParts [("collection", withType collection.type collection.parts)]
  | predicate@(.memberOf plural other _) => predicate.withParts
      [("plural_path", withType plural.type plural.parts),
        ("other", Json.ofMembers other.members)]
  | predicate@(.existence nested _) => predicate.withParts [("subquery", nested.toJson)]

def restrictionToJson : Option Predicate → Json
  | none => .null
  | some predicate => predicate.toJson

def Subquery.toJson : Subquery → Json
  | .mk select type? =>
    Json.ofMembers [("query", Json.ofMembers select.members), ("type", typeJson type?)]

def selectionsToJson : List Selection → List Json
  | [] => []
  | .mk expression alias? :: selections =>
    Json.ofMembers
      [("expression", Json.ofMembers expression.members),
        ("alias", Json.ofOption Json.ofText alias?)]
      :: selectionsToJson selections

def joinsToJson : List Join → List Json
  | [] => []
  | .mk element restriction :: joins =>
    Json.ofMembers [("element", element.uidJson), ("predicate", restrictionToJson restriction)]
      :: joinsToJson joins

def Space.toJson : Space → Json
  | .mk root joins =>
    Json.ofMembers [("root", root.uidJson), ("joins", .array (joinsToJson joins))]

def spacesToJson : List Space → List Json
  | [] => []
  | space :: spaces => space.toJson :: spacesToJson spaces

def sortItemsToJson : List SortItem → List Json
  | [] => []
  | .mk expression collation order :: items =>
    Json.ofMembers
      [("expression", Json.ofMembers expression.members),
        ("collation", Json.ofOption Json.ofText collation), ("order", Json.ofText order.text)]
      :: sortItemsToJson items

def orderToJson : Option (List SortItem) → Json
  | none => .null
  | some items => .array (sortItemsToJson items)

def Select.members : Select → List (String × Json)
  | .mk spaces distinct selections restriction order limit offset =>
    [("from", .array (spacesToJson spaces)), ("distinct", .bool distinct),
      ("selections", .array (selectionsToJson selections)),
      ("where", restrictionToJson restriction), ("order_by", orderToJson order),
      ("limit", optionalToJson limit), ("offset", optionalToJson offset)]

end

def Expression.toJson (expression : Expression) : Json := Json.ofMembers expression.members

def AttributeReference.toJson (reference : AttributeReference) : Json :=
  withType reference.type reference.parts

/-! ## Statements -/

def Assignment.toJson (assignment : Assignment) : Json :=
  Json.ofMembers [("target", assignment.target.toJson), ("value", assignment.value.toJson)]

/-- A query with the table of its elements. -/
def Select.toJson (narrowings : Narrowings) (select : Select) : Json :=
  Json.ofMembers (("elements", elementTable narrowings select.elements) :: select.members)

namespace Statement

def form : Statement → String
  | select _ => "Select"
  | update _ _ _ => "Update"
  | delete _ _ => "Delete"
  | insert _ _ _ => "InsertSelect"

def members : Statement → List (String × Json)
  | select query => query.members
  | update target assignments restriction =>
    [("target", target.toJson), ("assignments", Json.ofList Assignment.toJson assignments),
      ("where", restrictionToJson restriction)]
  | delete target restriction =>
    [("target", target.toJson), ("where", restrictionToJson restriction)]
  | insert target stateFields query =>
    [("target", target.toJson),
      ("state_fields", Json.ofList AttributeReference.toJson stateFields),
      ("select", Json.ofMembers query.members)]

/-- A statement with the table of its elements. -/
def toJson (narrowings : Narrowings) (statement : Statement) : Json :=
  Json.tagged statement.form
    (("elements", elementTable narrowings statement.elements) :: statement.members)

end Statement
end Resolved
end EntityQuery

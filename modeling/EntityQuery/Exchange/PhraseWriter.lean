import EntityQuery.Exchange.Word

/-!
# Writing phrases

The exchanged form of a phrase: a node for every expression, predicate, join and statement, and a
dotted name as the array of its parts. A part that is left out is written as null.

* `Phrase.Statement.toJson`, `Phrase.Expression.toJson`.
-/

namespace EntityQuery

/-- The array of the parts of a name. -/
def DottedName.toJson (name : DottedName) : Json := Json.ofList Json.ofText name.parts

namespace Phrase

def Root.toJson (root : Root) : Json :=
  Json.ofMembers
    [("entity", root.entity.toJson), ("alias", Json.ofOption Json.ofText root.alias?)]

def Target.toJson : Target → Json
  | .list => Json.ofText "List"
  | .map => Json.ofText "Map"
  | .hostClass name => name.toJson

/-- The narrowing of a join target. -/
def JoinTarget.entity? : JoinTarget → Option DottedName
  | .plain _ => none
  | .treated _ entity => some entity

mutual

def Expression.toJson : Expression → Json
  | .literal token => Json.tagged "Literal"
      [("kind", Json.ofText token.kind.word), ("text", Json.ofText token.text)]
  | .parameter (.named name) => Json.tagged "Parameter" [("name", Json.ofText name)]
  | .parameter (.positional position) =>
    Json.tagged "Parameter" [("position", Json.ofNat position)]
  | .path name => Json.tagged "Path" [("path", name.toJson)]
  | .indexed base index remainder => Json.tagged "Indexed"
      [("base", base.toJson), ("index", index.toJson),
        ("remainder", Json.ofOption DottedName.toJson remainder)]
  | .treated base entity remainder => Json.tagged "Treated"
      [("base", base.toJson), ("target", entity.toJson),
        ("remainder", Json.ofOption DottedName.toJson remainder)]
  | .mapFunction function argument => Json.tagged "MapFunction"
      [("function", Json.ofText function.word), ("argument", argument.toJson)]
  | .arithmetic operator operands => Json.tagged "Arithmetic"
      [("operator", Json.ofText operator.word), ("operands", .array (expressionsToJson operands))]
  | .concatenation operands =>
    Json.tagged "Concatenation" [("operands", .array (expressionsToJson operands))]
  | .unary sign operand => Json.tagged "Unary"
      [("operator", Json.ofText sign.word), ("operand", operand.toJson)]
  | .grouped inner => Json.tagged "Grouped" [("inner", inner.toJson)]
  | .call name generic distinct star arguments => Json.tagged "Function"
      [("name", Json.ofText name), ("generic", .bool generic), ("distinct", .bool distinct),
        ("star", .bool star), ("arguments", .array (expressionsToJson arguments))]
  | .simpleCase operand whens otherwise => Json.tagged "SimpleCase"
      [("operand", operand.toJson), ("whens", .array (simpleWhensToJson whens)),
        ("otherwise", optionalToJson otherwise)]
  | .searchedCase whens otherwise => Json.tagged "SearchedCase"
      [("whens", .array (searchedWhensToJson whens)), ("otherwise", optionalToJson otherwise)]
  | .subquery query => Json.tagged "SubQuery" [("query", query.toJson)]

def expressionsToJson : List Expression → List Json
  | [] => []
  | expression :: expressions => expression.toJson :: expressionsToJson expressions

def optionalToJson : Option Expression → Json
  | none => .null
  | some expression => expression.toJson

def simpleWhensToJson : List SimpleWhen → List Json
  | [] => []
  | .mk value result :: whens =>
    Json.ofMembers [("value", value.toJson), ("result", result.toJson)] :: simpleWhensToJson whens

def searchedWhensToJson : List SearchedWhen → List Json
  | [] => []
  | .mk condition result :: whens =>
    Json.ofMembers [("condition", condition.toJson), ("result", result.toJson)]
      :: searchedWhensToJson whens

def Predicate.toJson : Predicate → Json
  | .and left right => Json.tagged "And" [("left", left.toJson), ("right", right.toJson)]
  | .or left right => Json.tagged "Or" [("left", left.toJson), ("right", right.toJson)]
  | .not inner => Json.tagged "Not" [("inner", inner.toJson)]
  | .grouped inner => Json.tagged "Grouped" [("inner", inner.toJson)]
  | .comparison operator left right => Json.tagged "Comparison"
      [("operator", Json.ofText operator.word), ("left", left.toJson), ("right", right.toJson)]
  | .between expression lower upper negated => Json.tagged "Between"
      [("expression", expression.toJson), ("lower", lower.toJson), ("upper", upper.toJson),
        ("negated", .bool negated)]
  | .like expression pattern escape negated => Json.tagged "Like"
      [("expression", expression.toJson), ("pattern", pattern.toJson),
        ("escape", optionalToJson escape), ("negated", .bool negated)]
  | .inList expression items negated => Json.tagged "In"
      [("expression", expression.toJson), ("list", .array (expressionsToJson items)),
        ("negated", .bool negated)]
  | .inSubquery expression subquery negated => Json.tagged "InSubQuery"
      [("expression", expression.toJson), ("subquery", subquery.toJson),
        ("negated", .bool negated)]
  | .isNull expression negated =>
    Json.tagged "IsNull" [("expression", expression.toJson), ("negated", .bool negated)]
  | .isEmpty expression negated =>
    Json.tagged "IsEmpty" [("expression", expression.toJson), ("negated", .bool negated)]
  | .memberOf element collection negated => Json.tagged "MemberOf"
      [("element", element.toJson), ("collection", collection.toJson), ("negated", .bool negated)]
  | .existence expression negated =>
    Json.tagged "Exists" [("expression", expression.toJson), ("negated", .bool negated)]

def restrictionToJson : Option Predicate → Json
  | none => .null
  | some predicate => predicate.toJson

def SelectExpression.toJson : SelectExpression → Json
  | .instantiation target arguments => Json.tagged "New"
      [("target", target.toJson), ("arguments", .array (selectItemsToJson arguments))]
  | .object name => Json.tagged "Object" [("alias", Json.ofText name)]
  | .expression selected => selected.toJson

def selectItemsToJson : List SelectItem → List Json
  | [] => []
  | .mk expression alias? :: items =>
    Json.ofMembers [("expression", expression.toJson), ("alias", Json.ofOption Json.ofText alias?)]
      :: selectItemsToJson items

def selectClauseToJson : Option SelectClause → Json
  | none => .null
  | some (.mk distinct items) =>
    Json.ofMembers [("distinct", .bool distinct), ("items", .array (selectItemsToJson items))]

def joinsToJson : List Join → List Json
  | [] => []
  | .cross root :: joins => Json.tagged "Cross" [("root", root.toJson)] :: joinsToJson joins
  | .collection path alias? :: joins => Json.tagged "Collection"
      [("path", path.toJson), ("alias", Json.ofOption Json.ofText alias?)] :: joinsToJson joins
  | .qualified type fetch target alias? predicate :: joins => Json.tagged "Qualified"
      [("join_type", Json.ofText type.word), ("fetch", .bool fetch), ("path", target.path.toJson),
        ("treat", Json.ofOption DottedName.toJson target.entity?),
        ("alias", Json.ofOption Json.ofText alias?), ("predicate", restrictionToJson predicate)]
      :: joinsToJson joins

def spacesToJson : List Space → List Json
  | [] => []
  | .mk root joins :: spaces =>
    Json.ofMembers [("root", root.toJson), ("joins", .array (joinsToJson joins))]
      :: spacesToJson spaces

def sortItemsToJson : List SortItem → List Json
  | [] => []
  | .mk expression collation ordering :: items =>
    Json.ofMembers
      [("expression", expression.toJson), ("collation", Json.ofOption Json.ofText collation),
        ("ordering", Json.ofOption Json.ofText ordering)]
      :: sortItemsToJson items

def orderToJson : Option (List SortItem) → Json
  | none => .null
  | some items => .array (sortItemsToJson items)

def Query.toJson : Query → Json
  | .mk select spaces restriction order limit offset => Json.ofMembers
      [("select", selectClauseToJson select), ("from", .array (spacesToJson spaces)),
        ("where", restrictionToJson restriction), ("order_by", orderToJson order),
        ("limit", optionalToJson limit), ("offset", optionalToJson offset)]

end

def Assignment.toJson (assignment : Assignment) : Json :=
  Json.ofMembers [("path", assignment.path.toJson), ("value", assignment.value.toJson)]

def Statement.toJson : Statement → Json
  | .select query => Json.tagged "Select" [("query", query.toJson)]
  | .update target assignments restriction => Json.tagged "Update"
      [("target", target.toJson), ("assignments", Json.ofList Assignment.toJson assignments),
        ("where", restrictionToJson restriction)]
  | .delete target restriction => Json.tagged "Delete"
      [("target", target.toJson), ("where", restrictionToJson restriction)]
  | .insert target stateFields query => Json.tagged "Insert"
      [("target", target.toJson), ("state_fields", Json.ofList DottedName.toJson stateFields),
        ("query", query.toJson)]

end Phrase
end EntityQuery

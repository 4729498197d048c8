import EntityQuery.Exchange.Word
import EntityQuery.Json.Reader

/-!
# Reading phrases

Phrases are read from their exchanged form. A flag, a list or an optional part that is missing is
taken as not set, empty or absent; a parameter whose position is a number is a positional one.

The depth counts the values that may still be entered; reading an object of a text needs no more
of it than the text may nest.

* `Phrase.Statement.ofJson?`, `Phrase.Expression.ofJson?`.
-/

namespace EntityQuery

namespace Json

/-- A member that has to be there. -/
def part? {α : Type} (value : Json) (name : String) (read : Json → Option α) : Option α :=
  (value.member? name).bind read

/-- A member that may be missing or null. -/
def optional? {α : Type} (value : Json) (name : String) (read : Json → Option α) :
    Option (Option α) :=
  match value.member? name with
  | none => some none
  | some null => some none
  | some content => (read content).map some

/-- The items of a member that may be missing. -/
def sequence? {α : Type} (value : Json) (name : String) (read : Json → Option α) :
    Option (List α) :=
  match value.member? name with
  | none => some []
  | some content => content.items?.bind fun items => items.mapM read

/-- A flag is set only if it says so. -/
def flag (value : Json) (name : String) : Bool := ((value.member? name).bind bool?).getD false

end Json

namespace DottedName

def ofJson? (value : Json) : Option DottedName := do
  let parts ← (← value.items?).mapM Json.text?
  some ⟨parts⟩

end DottedName

namespace Phrase

def Root.ofJson? (value : Json) : Option Root := do
  let entity ← value.part? "entity" DottedName.ofJson?
  let alias? ← value.optional? "alias" Json.text?
  some ⟨entity, alias?⟩

/-- A target is the name of a class, a list, or else a map. -/
def Target.ofJson? (value : Json) : Option Target :=
  match value.text? with
  | some word => some (if word = "List" then .list else .map)
  | none => (DottedName.ofJson? value).map .hostClass

def Literal.ofJson? (value : Json) : Option Literal := do
  let kind ← value.part? "kind" (Json.alternative? LiteralKind.word LiteralKind.all)
  let text ← value.part? "text" Json.text?
  some ⟨kind, text⟩

def Parameter.ofJson? (value : Json) : Option Parameter :=
  match value.part? "position" Json.nat? with
  | some position => some (.positional position)
  | none => (value.part? "name" Json.text?).map .named

def JoinTarget.ofJson? (value : Json) : Option JoinTarget := do
  let path ← value.part? "path" DottedName.ofJson?
  match ← value.optional? "treat" DottedName.ofJson? with
  | some entity => some (.treated path entity)
  | none => some (.plain path)

mutual

def Expression.ofJson? : Nat → Json → Option Expression
  | 0, _ => none
  | depth + 1, value => do
    match ← value.tag? with
    | "Literal" => (Literal.ofJson? value).map .literal
    | "Parameter" => (Parameter.ofJson? value).map .parameter
    | "Path" => (value.part? "path" DottedName.ofJson?).map .path
    | "Indexed" =>
      let base ← value.part? "base" DottedName.ofJson?
      let index ← value.part? "index" (Expression.ofJson? depth)
      let remainder ← value.optional? "remainder" DottedName.ofJson?
      some (.indexed base index remainder)
    | "Treated" =>
      let base ← value.part? "base" DottedName.ofJson?
      let entity ← value.part? "target" DottedName.ofJson?
      let remainder ← value.optional? "remainder" DottedName.ofJson?
      some (.treated base entity remainder)
    | "MapFunction" =>
      let function ← value.part? "function" (Json.alternative? MapFunction.word MapFunction.all)
      let argument ← value.part? "argument" DottedName.ofJson?
      some (.mapFunction function argument)
    | "Arithmetic" =>
      let operator ← value.part? "operator"
        (Json.alternative? ArithmeticOperator.word ArithmeticOperator.all)
      let operands ← value.sequence? "operands" (Expression.ofJson? depth)
      some (.arithmetic operator operands)
    | "Concatenation" =>
      (value.sequence? "operands" (Expression.ofJson? depth)).map .concatenation
    | "Unary" =>
      let sign ← value.part? "operator" (Json.alternative? Sign.word Sign.all)
      let operand ← value.part? "operand" (Expression.ofJson? depth)
      some (.unary sign operand)
    | "Grouped" => (value.part? "inner" (Expression.ofJson? depth)).map .grouped
    | "Function" =>
      let name ← value.part? "name" Json.text?
      let arguments ← value.sequence? "arguments" (Expression.ofJson? depth)
      some (.call name (value.flag "generic") (value.flag "distinct") (value.flag "star")
        arguments)
    | "SimpleCase" =>
      let operand ← value.part? "operand" (Expression.ofJson? depth)
      let whens ← value.sequence? "whens" (SimpleWhen.ofJson? depth)
      let otherwise ← value.optional? "otherwise" (Expression.ofJson? depth)
      some (.simpleCase operand whens otherwise)
    | "SearchedCase" =>
      let whens ← value.sequence? "whens" (SearchedWhen.ofJson? depth)
      let otherwise ← value.optional? "otherwise" (Expression.ofJson? depth)
      some (.searchedCase whens otherwise)
    | "SubQuery" => (value.part? "query" (Query.ofJson? depth)).map .subquery
    | _ => none

def SimpleWhen.ofJson? : Nat → Json → Option SimpleWhen
  | 0, _ => none
  | depth + 1, branch => do
    let value ← branch.part? "value" (Expression.ofJson? depth)
    let result ← branch.part? "result" (Expression.ofJson? depth)
    some (.mk value result)

def SearchedWhen.ofJson? : Nat → Json → Option SearchedWhen
  | 0, _ => none
  | depth + 1, branch => do
    let condition ← branch.part? "condition" (Predicate.ofJson? depth)
    let result ← branch.part? "result" (Expression.ofJson? depth)
    some (.mk condition result)

def Predicate.ofJson? : Nat → Json → Option Predicate
  | 0, _ => none
  | depth + 1, value => do
    let negated := value.flag "negated"
    match ← value.tag? with
    | "And" =>
      let left ← value.part? "left" (Predicate.ofJson? depth)
      let right ← value.part? "right" (Predicate.ofJson? depth)
      some (.and left right)
    | "Or" =>
      let left ← value.part? "left" (Predicate.ofJson? depth)
      let right ← value.part? "right" (Predicate.ofJson? depth)
      some (.or left right)
    | "Not" => (value.part? "inner" (Predicate.ofJson? depth)).map .not
    | "Grouped" => (value.part? "inner" (Predicate.ofJson? depth)).map .grouped
    | "Comparison" =>
      let operator ← value.part? "operator"
        (Json.alternative? ComparisonOperator.word ComparisonOperator.all)
      let left ← value.part? "left" (Expression.ofJson? depth)
      let right ← value.part? "right" (Expression.ofJson? depth)
      some (.comparison operator left right)
    | "Between" =>
      let expression ← value.part? "expression" (Expression.ofJson? depth)
      let lower ← value.part? "lower" (Expression.ofJson? depth)
      let upper ← value.part? "upper" (Expression.ofJson? depth)
      some (.between expression lower upper negated)
    | "Like" =>
      let expression ← value.part? "expression" (Expression.ofJson? depth)
      let pattern ← value.part? "pattern" (Expression.ofJson? depth)
      let escape ← value.optional? "escape" (Expression.ofJson? depth)
      some (.like expression pattern escape negated)
    | "In" =>
      let expression ← value.part? "expression" (Expression.ofJson? depth)
      let items ← value.sequence? "list" (Expression.ofJson? depth)
      some (.inList expression items negated)
    | "InSubQuery" =>
      let expression ← value.part? "expression" (Expression.ofJson? depth)
      let subquery ← value.part? "subquery" (Expression.ofJson? depth)
      some (.inSubquery expression subquery negated)
    | "IsNull" =>
      let expression ← value.part? "expression" (Expression.ofJson? depth)
      some (.isNull expression negated)
    | "IsEmpty" =>
      let expression ← value.part? "expression" (Expression.ofJson? depth)
      some (.isEmpty expression negated)
    | "MemberOf" =>
      let element ← value.part? "element" (Expression.ofJson? depth)
      let collection ← value.part? "collection" (Expression.ofJson? depth)
      some (.memberOf element collection negated)
    | "Exists" =>
      let expression ← value.part? "expression" (Expression.ofJson? depth)
      some (.existence expression negated)
    | _ => none

def SelectExpression.ofJson? : Nat → Json → Option SelectExpression
  | 0, _ => none
  | depth + 1, value => do
    match ← value.tag? with
    | "New" =>
      let target ← value.part? "target" Target.ofJson?
      let arguments ← value.sequence? "arguments" (SelectItem.ofJson? depth)
      some (.instantiation target arguments)
    | "Object" => (value.part? "alias" Json.text?).map .object
    | _ => (Expression.ofJson? depth value).map .expression

def SelectItem.ofJson? : Nat → Json → Option SelectItem
  | 0, _ => none
  | depth + 1, value => do
    let expression ← value.part? "expression" (SelectExpression.ofJson? depth)
    let alias? ← value.optional? "alias" Json.text?
    some (.mk expression alias?)

def SelectClause.ofJson? : Nat → Json → Option SelectClause
  | 0, _ => none
  | depth + 1, value => do
    let items ← value.sequence? "items" (SelectItem.ofJson? depth)
    some (.mk (value.flag "distinct") items)

def Join.ofJson? : Nat → Json → Option Join
  | 0, _ => none
  | depth + 1, value => do
    match ← value.tag? with
    | "Cross" => (value.part? "root" Root.ofJson?).map .cross
    | "Collection" =>
      let path ← value.part? "path" DottedName.ofJson?
      let alias? ← value.optional? "alias" Json.text?
      some (.collection path alias?)
    | "Qualified" =>
      let type ← value.part? "join_type" (Json.alternative? JoinType.word JoinType.all)
      let target ← JoinTarget.ofJson? value
      let alias? ← value.optional? "alias" Json.text?
      let predicate ← value.optional? "predicate" (Predicate.ofJson? depth)
      some (.qualified type (value.flag "fetch") target alias? predicate)
    | _ => none

def Space.ofJson? : Nat → Json → Option Space
  | 0, _ => none
  | depth + 1, value => do
    let root ← value.part? "root" Root.ofJson?
    let joins ← value.sequence? "joins" (Join.ofJson? depth)
    some (.mk root joins)

def SortItem.ofJson? : Nat → Json → Option SortItem
  | 0, _ => none
  | depth + 1, value => do
    let expression ← value.part? "expression" (Expression.ofJson? depth)
    let collation ← value.optional? "collation" Json.text?
    let ordering ← value.optional? "ordering" Json.text?
    some (.mk expression collation ordering)

def Query.ofJson? : Nat → Json → Option Query
  | 0, _ => none
  | depth + 1, value => do
    let select ← value.optional? "select" (SelectClause.ofJson? depth)
    let spaces ← value.sequence? "from" (Space.ofJson? depth)
    let restriction ← value.optional? "where" (Predicate.ofJson? depth)
    let order ← value.optional? "order_by"
      fun items => items.items?.bind fun items => items.mapM (SortItem.ofJson? depth)
    let limit ← value.optional? "limit" (Expression.ofJson? depth)
    let offset ← value.optional? "offset" (Expression.ofJson? depth)
    some (.mk select spaces restriction order limit offset)

end

def Assignment.ofJson? (depth : Nat) (value : Json) : Option Assignment := do
  let path ← value.part? "path" DottedName.ofJson?
  let assigned ← value.part? "value" (Expression.ofJson? depth)
  some ⟨path, assigned⟩

def Statement.ofJson? (depth : Nat) (value : Json) : Option Statement := do
  match ← value.tag? with
  | "Select" => (value.part? "query" (Query.ofJson? depth)).map .select
  | "Update" =>
    let target ← value.part? "target" Root.ofJson?
    let assignments ← value.sequence? "assignments" (Assignment.ofJson? depth)
    let restriction ← value.optional? "where" (Predicate.ofJson? depth)
    some (.update target assignments restriction)
  | "Delete" =>
    let target ← value.part? "target" Root.ofJson?
    let restriction ← value.optional? "where" (Predicate.ofJson? depth)
    some (.delete target restriction)
  | "Insert" =>
    let target ← value.part? "target" DottedName.ofJson?
    let stateFields ← value.sequence? "state_fields" DottedName.ofJson?
    let query ← value.part? "query" (Query.ofJson? depth)
    some (.insert target stateFields query)
  | _ => none

end Phrase
end EntityQuery

import EntityQuery.Phrase.Operator
import EntityQuery.Text.DottedName

/-!
# Phrases

A phrase is a query as it is written: names and paths are kept as they stand and nothing is known
of their types. Phrases may have shapes that no text is read as, such as operators without
operands.
-/

namespace EntityQuery.Phrase

/-- The kind of a literal, decided by its form alone. -/
inductive LiteralKind where
  | string
  | character
  | integer
  | long
  | bigInteger
  | float
  | double
  | bigDecimal
  | hex
  | octal
  | true
  | false
  | null
  deriving DecidableEq, Repr

/-- A literal with its text: the content of a quoted literal, otherwise the token. -/
structure Literal where
  kind : LiteralKind
  text : String
  deriving DecidableEq, Repr

inductive Parameter where
  | named (name : String)
  | positional (position : Nat)
  deriving DecidableEq, Repr

/-- An entity name with an identification variable. -/
structure Root where
  entity : DottedName
  alias? : Option String
  deriving DecidableEq, Repr

/-- What an instantiation makes. -/
inductive Target where
  | list
  | map
  | hostClass (name : DottedName)
  deriving DecidableEq, Repr

/-- What a join leads to: a path, perhaps narrowed to an entity. -/
inductive JoinTarget where
  | plain (path : DottedName)
  | treated (path entity : DottedName)
  deriving DecidableEq, Repr

/-- The path of a join target. -/
def JoinTarget.path : JoinTarget → DottedName
  | .plain path => path
  | .treated path _ => path

mutual

inductive Expression where
  | literal (literal : Literal)
  | parameter (parameter : Parameter)
  | path (path : DottedName)
  /-- An element of an indexed collection, with a path that goes on from it. -/
  | indexed (base : DottedName) (index : Expression) (remainder : Option DottedName)
  /-- A path narrowed to an entity, with a path that goes on from it. -/
  | treated (base entity : DottedName) (remainder : Option DottedName)
  | mapFunction (function : MapFunction) (argument : DottedName)
  | arithmetic (operator : ArithmeticOperator) (operands : List Expression)
  | concatenation (operands : List Expression)
  | unary (sign : Sign) (operand : Expression)
  | grouped (inner : Expression)
  | call (name : String) (generic distinct star : Bool) (arguments : List Expression)
  | simpleCase (operand : Expression) (whens : List SimpleWhen) (otherwise : Option Expression)
  | searchedCase (whens : List SearchedWhen) (otherwise : Option Expression)
  | subquery (query : Query)

inductive SimpleWhen where
  | mk (value result : Expression)

inductive SearchedWhen where
  | mk (condition : Predicate) (result : Expression)

inductive Predicate where
  | and (left right : Predicate)
  | or (left right : Predicate)
  | not (inner : Predicate)
  | grouped (inner : Predicate)
  | comparison (operator : ComparisonOperator) (left right : Expression)
  | between (expression lower upper : Expression) (negated : Bool)
  | like (expression pattern : Expression) (escape : Option Expression) (negated : Bool)
  | inList (expression : Expression) (items : List Expression) (negated : Bool)
  | inSubquery (expression subquery : Expression) (negated : Bool)
  | isNull (expression : Expression) (negated : Bool)
  | isEmpty (expression : Expression) (negated : Bool)
  | memberOf (element collection : Expression) (negated : Bool)
  | existence (expression : Expression) (negated : Bool)

inductive SelectExpression where
  | instantiation (target : Target) (arguments : List SelectItem)
  /-- An identification variable, written as an object. -/
  | object (name : String)
  | expression (expression : Expression)

inductive SelectItem where
  | mk (expression : SelectExpression) (alias? : Option String)

inductive SelectClause where
  | mk (distinct : Bool) (items : List SelectItem)

inductive Join where
  | cross (root : Root)
  | collection (path : DottedName) (alias? : Option String)
  | qualified (type : JoinType) (fetch : Bool) (target : JoinTarget) (alias? : Option String)
      (predicate : Option Predicate)

inductive Space where
  | mk (root : Root) (joins : List Join)

inductive SortItem where
  | mk (expression : Expression) (collation ordering : Option String)

/-- A query with its clauses: selection, spaces, restriction, order, limit and offset. -/
inductive Query where
  | mk (select : Option SelectClause) (spaces : List Space) (restriction : Option Predicate)
      (order : Option (List SortItem)) (limit offset : Option Expression)

end

/-- The variable of a selected expression. -/
def SelectItem.alias? : SelectItem → Option String
  | .mk _ alias? => alias?

/-- An assignment of an update. -/
structure Assignment where
  path : DottedName
  value : Expression

inductive Statement where
  | select (query : Query)
  | update (target : Root) (assignments : List Assignment) (restriction : Option Predicate)
  | delete (target : Root) (restriction : Option Predicate)
  | insert (target : DottedName) (stateFields : List DottedName) (query : Query)

end EntityQuery.Phrase

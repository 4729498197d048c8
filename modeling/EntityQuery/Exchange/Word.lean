import EntityQuery.Json.Basic
import EntityQuery.Phrase.Tree

/-!
# Words of the exchanged form

Phrases and resolved statements are exchanged as JSON. An alternative that holds nothing is written
as a word; a node is an object whose member `t` names its form.

* `Json.tagged` and `Json.tag?`: the objects of nodes.
* `Json.alternative?`: reading a word back.
-/

namespace EntityQuery

namespace Json

/-- A node of a form with its further members. -/
def tagged (form : String) (members : List (String × Json)) : Json :=
  ofMembers (("t", ofText form) :: members)

/-- The form that a node names. -/
def tag? (value : Json) : Option String := (value.member? "t").bind text?

/-- The alternative that is written as the given word. -/
def alternative? {α : Type} (written : α → String) (all : List α) (value : Json) : Option α := do
  let word ← value.text?
  all.find? fun candidate => written candidate == word

end Json

namespace Phrase.LiteralKind

def all : List LiteralKind :=
  [string, character, integer, long, bigInteger, float, double, bigDecimal, hex, octal, .true,
    .false, null]

def word : LiteralKind → String
  | string => "String"
  | character => "Character"
  | integer => "Integer"
  | long => "Long"
  | bigInteger => "BigInteger"
  | float => "Float"
  | double => "Double"
  | bigDecimal => "BigDecimal"
  | hex => "Hex"
  | octal => "Octal"
  | .true => "True"
  | .false => "False"
  | null => "Null"

end Phrase.LiteralKind

namespace ArithmeticOperator

def all : List ArithmeticOperator := [add, subtract, multiply, divide]

def word : ArithmeticOperator → String
  | add => "Add"
  | subtract => "Subtract"
  | multiply => "Multiply"
  | divide => "Divide"

end ArithmeticOperator

namespace ComparisonOperator

def all : List ComparisonOperator :=
  [equal, notEqual, lessThan, lessThanOrEqual, greaterThan, greaterThanOrEqual]

def word : ComparisonOperator → String
  | equal => "Equal"
  | notEqual => "NotEqual"
  | lessThan => "LessThan"
  | lessThanOrEqual => "LessThanOrEqual"
  | greaterThan => "GreaterThan"
  | greaterThanOrEqual => "GreaterThanOrEqual"

end ComparisonOperator

namespace Sign

def all : List Sign := [plus, minus]

def word : Sign → String
  | plus => "Plus"
  | minus => "Minus"

end Sign

namespace JoinType

def all : List JoinType := [inner, left, right, full]

def word : JoinType → String
  | inner => "Inner"
  | left => "Left"
  | right => "Right"
  | full => "Full"

end JoinType

namespace MapFunction

def all : List MapFunction := [key, value, entry]

def word : MapFunction → String
  | key => "Key"
  | value => "Value"
  | entry => "Entry"

end MapFunction
end EntityQuery

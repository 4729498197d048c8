import EntityQuery.Domain.ValueType
import EntityQuery.Number.Scaled
import EntityQuery.Number.Shortest
import EntityQuery.Phrase.Tree
import EntityQuery.Report.Error
import EntityQuery.Text.CaseFolding

/-!
# Values of literals

A literal is written with the mark of its type at the end; its value is read from what stands
before the mark.

* `Resolved.Literal.ofPhrase`: the value of a written literal, or why it has none.
* `Value.text`: a value written as a literal again.
-/

namespace EntityQuery

/-- The value of a literal. Integers have 32 bits and long integers 64. -/
inductive Value where
  | string (content : String)
  | character (content : Char)
  | integer (value : Int)
  | long (value : Int)
  | bigInteger (value : Int)
  | float (value : Number.Binary)
  | double (value : Number.Binary)
  | bigDecimal (value : Number.Scaled)
  | boolean (value : Bool)
  | null
  deriving DecidableEq, Repr

namespace Value

/-- The type of a value; null has none. -/
def type? : Value → Option BasicType
  | string _ => some .string
  | character _ => some .character
  | integer _ => some .integer
  | long _ => some .long
  | bigInteger _ => some .bigInteger
  | float _ => some .float
  | double _ => some .double
  | bigDecimal _ => some .bigDecimal
  | boolean _ => some .boolean
  | null => none

/-- The characters with every quote doubled. -/
def doubleQuotes (content : List Char) : List Char :=
  content.flatMap fun c => if c = '\'' then ['\'', '\''] else [c]

/-- The value with the mark of its type. -/
def text : Value → String
  | string content => "'" ++ String.ofList (doubleQuotes content.toList) ++ "'"
  | character content => "'" ++ content.toString ++ "'"
  | integer value => toString value
  | long value => toString value ++ "L"
  | bigInteger value => toString value ++ "BI"
  | float value => value.text .single ++ "F"
  | double value => value.text .double ++ "D"
  | bigDecimal value => value.text ++ "BD"
  | boolean true => "true"
  | boolean false => "false"
  | null => "null"

end Value

/-- Why a written literal has no value. -/
inductive LiteralFault where
  /-- A character literal holds no or several characters. -/
  | characterCount (text : String)
  | whole (text : String) (problem : Number.Whole.Problem)
  | binary (text : String) (problem : Number.Binary.Problem)
  | scaled (text : String) (problem : Number.Scaled.Problem)
  deriving DecidableEq, Repr

namespace LiteralFault

/-- The fault as it is reported; a number is reported with its mark. -/
def report : LiteralFault → Report.QueryError
  | characterCount text =>
    .shape .malformedCharacter s!"Character literal must hold exactly one character: '{text}'"
  | whole text problem => .numberFormat text problem.text
  | binary text problem => .numberFormat text problem.text
  | scaled text problem => .numberFormat text problem.text

end LiteralFault

namespace Resolved

/-- A literal with its value and with the text that it was written with. -/
structure Literal where
  value : Value
  text : String
  deriving DecidableEq, Repr

namespace Literal

/-- The characters without a mark at their end, which is given in small letters and may be written
in any case. -/
def dropMark (mark : List Char) (digits : List Char) : List Char :=
  let front := digits.take (digits.length - mark.length)
  if Text.foldCase (digits.drop front.length) = mark then front else digits

/-- A literal in a radix other than ten: long with a mark, else an integer. -/
def readRadix (radix : Nat) (digits : List Char) : Except Number.Whole.Problem Value :=
  let bare := dropMark ['l'] digits
  if bare.length < digits.length then (Number.Whole.readSigned 64 radix bare).map Value.long
  else (Number.Whole.readSigned 32 radix digits).map Value.integer

/-- The characters after the mark of the radix sixteen. -/
def dropRadixMark : List Char → List Char
  | '0' :: 'x' :: digits => digits
  | '0' :: 'X' :: digits => digits
  | digits => digits

/-- The value of a literal of the given kind and text. -/
def readValue (kind : Phrase.LiteralKind) (text : String) : Except LiteralFault Value :=
  let digits := text.toList
  match kind with
  | .string => .ok (.string text)
  | .character =>
    match digits with
    | [c] => .ok (.character c)
    | _ => .error (.characterCount text)
  | .true => .ok (.boolean true)
  | .false => .ok (.boolean false)
  | .null => .ok .null
  | .integer =>
    ((Number.Whole.readSigned 32 10 digits).map Value.integer).mapError (.whole text)
  | .long =>
    ((Number.Whole.readSigned 64 10 (dropMark ['l'] digits)).map Value.long).mapError (.whole text)
  | .bigInteger =>
    ((Number.Whole.readUnbounded (dropMark ['b', 'i'] digits)).map Value.bigInteger).mapError
      (.whole text)
  | .float =>
    ((Number.Binary.read .single (dropMark ['f'] digits)).map Value.float).mapError (.binary text)
  | .double =>
    ((Number.Binary.read .double (dropMark ['d'] digits)).map Value.double).mapError (.binary text)
  | .bigDecimal =>
    ((Number.Scaled.read (dropMark ['b', 'd'] digits)).map Value.bigDecimal).mapError (.scaled text)
  | .hex => (readRadix 16 (dropRadixMark digits)).mapError (.whole text)
  | .octal => (readRadix 8 digits).mapError (.whole text)

/-- The literal with its value. -/
def ofPhrase (literal : Phrase.Literal) : Except LiteralFault Literal :=
  (readValue literal.kind literal.text).map fun value => ⟨value, literal.text⟩

end Literal
end Resolved
end EntityQuery

/-!
# JSON values

A JSON value keeps what its text says: the members of an object in their order with repetitions,
a number as written, and a string as code points, since an escape may name half of a surrogate
pair, which is no character.

* `Json.text?`: the characters of a string, if all its code points are characters.
-/

namespace EntityQuery

/-- A value of a JSON text. -/
inductive Json where
  | null
  | bool (value : Bool)
  | number (text : List Char)
  | string (points : List Nat)
  | array (items : List Json)
  | object (members : List (List Nat × Json))

namespace Json

/-- The code points of a text. -/
def points (text : String) : List Nat := text.toList.map Char.toNat

/-- The string of a text. -/
def ofText (text : String) : Json := .string (points text)

/-- The number of a whole number. -/
def ofNat (n : Nat) : Json := .number (Nat.toDigits 10 n)

/-- The object with the given members. -/
def ofMembers (members : List (String × Json)) : Json :=
  .object (members.map fun member => (points member.1, member.2))

/-- The value, or null for none. -/
def ofOption {α : Type} (encode : α → Json) : Option α → Json
  | some value => encode value
  | none => .null

/-- The array of encoded values. -/
def ofList {α : Type} (encode : α → Json) (values : List α) : Json := .array (values.map encode)

/-- The character of a code point, if it is one. -/
def character? (point : Nat) : Option Char :=
  if h : point.isValidChar then some (Char.ofNatAux point h) else none

/-- The text of code points that are all characters. -/
def textOfPoints? (points : List Nat) : Option String :=
  (points.mapM character?).map String.ofList

/-- The text of a string. -/
def text? : Json → Option String
  | string points => textOfPoints? points
  | _ => none

def bool? : Json → Option Bool
  | bool value => some value
  | _ => none

/-- The value of a number written with decimal digits only. -/
def nat? : Json → Option Nat
  | number text =>
    if !text.isEmpty && text.all Char.isDigit then
      some (text.foldl (fun value c => value * 10 + (c.toNat - 48)) 0)
    else none
  | _ => none

def items? : Json → Option (List Json)
  | array items => some items
  | _ => none

/-- The members of an object whose names are all texts. -/
def members? : Json → Option (List (String × Json))
  | object members => members.mapM fun member =>
      (textOfPoints? member.1).map fun name => (name, member.2)
  | _ => none

/-- The last member of an object under a name. -/
def member? (value : Json) (name : String) : Option Json :=
  match value with
  | object members =>
    (members.reverse.find? fun member => member.1 == points name).map fun member => member.2
  | _ => none

end Json
end EntityQuery

import EntityQuery.Json.Basic

/-!
# Writing JSON

A value is written without blanks. Characters beyond ASCII stand for themselves, control
characters and halves of surrogate pairs are escaped.
-/

namespace EntityQuery.Json

/-- A hexadecimal digit. -/
def hexCharacter (digit : Nat) : Char :=
  if digit < 10 then Char.ofNat (48 + digit) else Char.ofNat (87 + digit)

/-- A code point as it stands in a string. -/
def writePoint (point : Nat) : List Char :=
  if point = 34 then ['\\', '"']
  else if point = 92 then ['\\', '\\']
  else if point < 32 || (0xD800 ≤ point && point < 0xE000) then
    ['\\', 'u', hexCharacter (point / 4096 % 16), hexCharacter (point / 256 % 16),
      hexCharacter (point / 16 % 16), hexCharacter (point % 16)]
  else [Char.ofNat point]

/-- A string with its quotes. -/
def writeString (points : List Nat) : String :=
  String.ofList ('"' :: points.flatMap writePoint ++ ['"'])

mutual

/-- The text of a value. -/
def write : Json → String
  | null => "null"
  | bool value => if value then "true" else "false"
  | number text => String.ofList text
  | string points => writeString points
  | array items => "[" ++ String.intercalate "," (writeItems items) ++ "]"
  | object members => "\x7b" ++ String.intercalate "," (writeMembers members) ++ "\x7d"

/-- The texts of the items of an array. -/
def writeItems : List Json → List String
  | [] => []
  | item :: items => write item :: writeItems items

/-- The texts of the members of an object. -/
def writeMembers : List (List Nat × Json) → List String
  | [] => []
  | (name, value) :: members => (writeString name ++ ":" ++ write value) :: writeMembers members

end

end EntityQuery.Json

/-!
# Dotted names

A path, an entity name or a class name is a list of parts, written with points between them. The
parts are kept as written; a part may itself hold a point only when the name was not read from a
text.
-/

namespace EntityQuery.Text

/-- The pieces of a text between the occurrences of a separator; always at least one. -/
def splitAt (separator : Char) : List Char → List (List Char)
  | [] => [[]]
  | c :: text =>
    if c = separator then [] :: splitAt separator text
    else match splitAt separator text with
      | [] => [[c]]
      | piece :: pieces => (c :: piece) :: pieces

theorem splitAt_ne_nil (separator : Char) (text : List Char) : splitAt separator text ≠ [] := by
  cases text with
  | nil => simp [splitAt]
  | cons c text =>
    unfold splitAt
    split
    · simp
    · split <;> simp

end EntityQuery.Text

namespace EntityQuery

/-- A name of several parts. -/
structure DottedName where
  parts : List String
  deriving DecidableEq, Repr, Inhabited

namespace DottedName

/-- The name written in a text: its pieces between points. -/
def ofText (text : String) : DottedName :=
  ⟨(Text.splitAt '.' text.toList).map String.ofList⟩

/-- The name of one part. -/
def single (part : String) : DottedName := ⟨[part]⟩

/-- The parts with points between them. -/
def text (name : DottedName) : String := String.intercalate "." name.parts

/-- The first part, or the empty text. -/
def first (name : DottedName) : String := name.parts.headD ""

/-- The last part, or the empty text. -/
def last (name : DottedName) : String := name.parts.getLastD ""

/-- The number of parts. -/
def length (name : DottedName) : Nat := name.parts.length

def isEmpty (name : DottedName) : Bool := name.parts.isEmpty

/-- The name has exactly one part. -/
def isSimple (name : DottedName) : Bool := name.length == 1

end DottedName
end EntityQuery

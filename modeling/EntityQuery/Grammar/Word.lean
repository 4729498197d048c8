import EntityQuery.Grammar.Reader
import EntityQuery.Text.Blank
import EntityQuery.Text.CaseFolding
import EntityQuery.Text.DottedName
import EntityQuery.Text.Letter
import EntityQuery.Text.Numeral

/-!
# Words and signs

The tokens of a query are signs and words. A word is an identifier; keywords are words whose case
does not matter. Blanks may stand before every token.

* `isReserved`: the words that structure a statement and so cannot be a bare identifier.
-/

namespace EntityQuery.Grammar

open EntityQuery.Text

/-- The character can begin an identifier. -/
def isWordStart (c : Char) : Bool := isLetter c || c = '_' || c = '$'

/-- The character can stand inside an identifier. -/
def isWordPart (c : Char) : Bool := isLetter c || isNumeral c || c = '_' || c = '$'

/-- The text does not go on with a character of an identifier. -/
def endsWord (text : List Char) : Bool := !text.head?.any isWordPart

/-- The words that structure a statement. -/
def reservedWords : List String :=
  ["select", "from", "where", "join", "inner", "left", "right", "full", "outer", "cross", "fetch",
    "on", "with", "as", "and", "or", "not", "in", "is", "null", "empty", "between", "like",
    "escape", "member", "of", "order", "by", "limit", "offset", "new", "distinct", "update", "set",
    "delete", "insert", "into", "case", "when", "then", "else", "end", "exists", "true", "false",
    "collate"]

/-- The word structures a statement, in any case of its letters. -/
def isReserved (word : String) : Bool := reservedWords.contains (lowered word)

/-- The text after an exact sign, if the text begins with it. -/
def dropSign? : List Char → List Char → Option (List Char)
  | [], text => some text
  | _ :: _, [] => none
  | s :: sign, c :: text => if c = s then dropSign? sign text else none

/-- The text after a keyword, if the text begins with that whole word. -/
def dropKeyword? (word text : List Char) : Option (List Char) :=
  match dropWord? word text with
  | some rest => if endsWord rest then some rest else none
  | none => none

/-- The text begins, after blanks, with the sign. -/
def beginsWithSign (sign : String) (text : List Char) : Bool :=
  (dropSign? sign.toList (trimStart text)).isSome

/-- The text begins, after blanks, with the keyword. -/
def beginsWithWord (word : String) (text : List Char) : Bool :=
  (dropKeyword? word.toList (trimStart text)).isSome

/-- Reads a token, given by the text after it. -/
def Reader.token (drop? : List Char → Option (List Char)) : Reader Unit := fun text =>
  match drop? text with
  | some rest => .ok () rest
  | none => .fail text

/-- Reads blanks. -/
def blanks : Reader Unit := fun text => .ok () (trimStart text)

/-- Reads a sign that stands without blanks before it. -/
def exactSign (sign : String) : Reader Unit := Reader.token (dropSign? sign.toList)

/-- Reads a sign after blanks. -/
def sign (sign : String) : Reader Unit :=
  Reader.token fun text => dropSign? sign.toList (trimStart text)

/-- Reads a keyword that stands without blanks before it. -/
def exactKeyword (word : String) : Reader Unit := Reader.token (dropKeyword? word.toList)

/-- Reads a keyword after blanks. -/
def keyword (word : String) : Reader Unit :=
  Reader.token fun text => dropKeyword? word.toList (trimStart text)

/-- The identifier that the text begins with, and the text after it. -/
def takeWord? : List Char → Option (String × List Char)
  | [] => none
  | c :: text =>
    if isWordStart c then
      some (String.ofList (c :: text.takeWhile isWordPart), text.dropWhile isWordPart)
    else none

/-- Reads an identifier that passes a test, after blanks. -/
def wordThat (test : String → Bool) : Reader String := fun text =>
  match takeWord? (trimStart text) with
  | some (word, rest) => if test word then .ok word rest else .fail text
  | none => .fail text

/-- Reads an identifier, reserved words included. -/
def anyIdentifier : Reader String := wordThat fun _ => true

/-- Reads an identifier that is not a reserved word. -/
def identifier : Reader String := wordThat fun word => !isReserved word

/-- Reads the further parts of a dotted name; any word may be one. -/
def dottedParts : Reader (List String) :=
  Reader.many (Reader.optional do
    sign "."
    anyIdentifier)

/-- Reads the further parts of a dotted name after its first. -/
def dottedTail (first : String) : Reader DottedName := do
  let parts ← dottedParts
  return ⟨first :: parts⟩

/-- Reads a dotted name whose first part is not a reserved word. -/
def dottedIdentifier : Reader DottedName := do
  let first ← identifier
  dottedTail first

/-- Reads a dotted name of any words: the name of an entity or of a class. -/
def dottedName : Reader DottedName := do
  let first ← anyIdentifier
  dottedTail first

end EntityQuery.Grammar

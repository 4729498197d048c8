import EntityQuery.Grammar.Word
import EntityQuery.Number.Digit
import EntityQuery.Phrase.Tree

/-!
# Literal tokens

A literal keeps its text; its form alone decides its kind.

* `quoted?`: a quoted text, in which a doubled quote stands for one.
* `numeral?`: a number with its radix prefix, point, exponent and suffix. The longest form is
  taken, and no character of an identifier may follow it.
-/

namespace EntityQuery.Grammar

open EntityQuery.Phrase

/-- The single quote. -/
def singleQuote : Char := Char.ofNat 39

/-- The double quote. -/
def doubleQuote : Char := Char.ofNat 34

/-- The content up to the closing quote, and the text after it. -/
def quoted? (quote : Char) : List Char → Option (List Char × List Char)
  | [] => none
  | c :: text =>
    if c = quote then
      match text with
      | [] => some ([], [])
      | d :: rest =>
        if d = quote then (quoted? quote rest).map fun read => (quote :: read.1, read.2)
        else some ([], text)
    else (quoted? quote text).map fun read => (c :: read.1, read.2)

/-- A single quoted character is a character literal, any other quoted text a string. -/
def quotedKind (quote : Char) (content : List Char) : LiteralKind :=
  if quote = singleQuote && content.length = 1 then .character else .string

/-- Reads a quoted literal after its opening quote. -/
def quotedLiteral? (quote : Char) (text : List Char) : Option (Literal × List Char) :=
  (quoted? quote text).map fun read =>
    (⟨quotedKind quote read.1, String.ofList read.1⟩, read.2)

/-! ## Numbers -/

/-- The character is a hexadecimal digit. -/
def isHexDigit (c : Char) : Bool := (Number.digit? 16 c).isSome

/-- The text after an exponent, if one is complete. -/
def dropExponent? (text : List Char) : Option (List Char) :=
  match text with
  | [] => none
  | c :: rest =>
    if c = 'e' || c = 'E' then
      let digits := match rest with
        | '+' :: digits => digits
        | '-' :: digits => digits
        | digits => digits
      if digits.head?.any Char.isDigit then some (digits.dropWhile Char.isDigit) else none
    else none

/-- What may follow the digits of a number. -/
inductive Suffix where
  | bigInteger
  | bigDecimal
  | long
  | float
  | double
  deriving DecidableEq, Repr

namespace Suffix

/-- The letters of a suffix. -/
def letters : Suffix → List Char
  | bigInteger => ['b', 'i']
  | bigDecimal => ['b', 'd']
  | long => ['l']
  | float => ['f']
  | double => ['d']

/-- The suffixes in the order in which they are tried. -/
def all : List Suffix := [bigInteger, bigDecimal, long, float, double]

end Suffix

/-- The suffix that the text begins with, and the text after it. -/
def takeSuffix? (text : List Char) : Option (Suffix × List Char) :=
  Suffix.all.findSome? fun suffix =>
    (Text.dropWord? suffix.letters text).map fun rest => (suffix, rest)

/-- The kind of a decimal number: whether it has a point or an exponent, whether its digits begin
with a needless zero, and its suffix. -/
def decimalKind? (fractional octal : Bool) : Option Suffix → Option LiteralKind
  | none => some (if fractional then .float else if octal then .octal else .integer)
  | some .long => if fractional then none else some (if octal then .octal else .long)
  | some .bigInteger => if fractional then none else some .bigInteger
  | some .float => some .float
  | some .double => some .double
  | some .bigDecimal => some .bigDecimal

/-- The kind of a number with a radix prefix, and the text after it. -/
def hexNumeral? (text : List Char) : Option (LiteralKind × List Char) :=
  if text.head?.any isHexDigit then
    let rest := text.dropWhile isHexDigit
    some (.hex, (Text.dropWord? ['l'] rest).getD rest)
  else none

/-- The kind of a decimal number, and the text after it. -/
def decimalNumeral? (text : List Char) : Option (LiteralKind × List Char) :=
  let whole := text.takeWhile Char.isDigit
  let afterWhole := text.dropWhile Char.isDigit
  let pointed := afterWhole.head? = some '.'
  let fraction := if pointed then (afterWhole.drop 1).takeWhile Char.isDigit else []
  let afterFraction := if pointed then (afterWhole.drop 1).dropWhile Char.isDigit else afterWhole
  if whole.isEmpty && fraction.isEmpty then none
  else
    let exponent? := dropExponent? afterFraction
    let afterExponent := exponent?.getD afterFraction
    let fractional := pointed || exponent?.isSome
    let octal := !fractional && 1 < whole.length && whole.head? = some '0'
    match takeSuffix? afterExponent with
    | some (suffix, rest) =>
      (decimalKind? fractional octal (some suffix)).map fun kind => (kind, rest)
    | none => (decimalKind? fractional octal none).map fun kind => (kind, afterExponent)

/-- The kind of the number that the text begins with, and the text after it. -/
def numeral? (text : List Char) : Option (LiteralKind × List Char) :=
  match text with
  | '0' :: 'x' :: rest => hexNumeral? rest
  | '0' :: 'X' :: rest => hexNumeral? rest
  | _ => decimalNumeral? text

/-- Reads a number that no character of an identifier follows. -/
def numericLiteral? (text : List Char) : Option (Literal × List Char) :=
  match numeral? text with
  | some (kind, rest) =>
    if endsWord rest then
      some (⟨kind, String.ofList (text.take (text.length - rest.length))⟩, rest)
    else none
  | none => none

/-! ## All literals -/

/-- The literals that are words. -/
def wordLiterals : List (String × LiteralKind) :=
  [("true", .true), ("false", .false), ("null", .null)]

/-- Reads a literal that is a word; its text is the word in small letters. -/
def wordLiteral? (text : List Char) : Option (Literal × List Char) :=
  wordLiterals.findSome? fun entry =>
    (dropKeyword? entry.1.toList text).map fun rest => (⟨entry.2, entry.1⟩, rest)

/-- The literal that the text begins with, and the text after it. -/
def literal? (text : List Char) : Option (Literal × List Char) :=
  match text with
  | [] => none
  | c :: rest =>
    if c = singleQuote || c = doubleQuote then quotedLiteral? c rest
    else match wordLiteral? text with
      | some read => some read
      | none => numericLiteral? text

/-- Reads a literal that stands without blanks before it. -/
def literalToken : Reader Literal := fun text =>
  match literal? text with
  | some (literal, rest) => .ok literal rest
  | none => .fail text

end EntityQuery.Grammar

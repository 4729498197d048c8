import EntityQuery.Number.Digit

/-!
# Binary floating numbers

A number of a binary format is a sign, a whole significand and a power of two. A decimal text is
read as the number nearest to it, a tie going to the even significand.

* `Format.round`: the number nearest to a positive fraction.
* `Binary.read`: the grammar of decimal texts and of the names of the special values.
-/

namespace EntityQuery.Number

/-- A number of a binary format; `finite` is `significand * 2 ^ exponent` with a sign. -/
inductive Binary where
  | notNumber
  | infinite (negative : Bool)
  | finite (negative : Bool) (significand : Nat) (exponent : Int)
  deriving DecidableEq, Repr

/-- A binary format: the bits of the significand, and the least and the greatest exponent of two
that a whole significand is scaled by. -/
structure Format where
  precision : Nat
  least : Int
  greatest : Int
  deriving DecidableEq, Repr

namespace Format

/-- The format of 32 bits. -/
def single : Format := ⟨24, -149, 104⟩

/-- The format of 64 bits. -/
def double : Format := ⟨53, -1074, 971⟩

end Format

/-- The quotient rounded to the nearest whole number, a tie to the even one. -/
def divNearest (num den : Nat) : Nat :=
  let quotient := num / den
  let twice := 2 * (num % den)
  if twice < den then quotient
  else if den < twice then quotient + 1
  else if quotient % 2 = 0 then quotient else quotient + 1

/-- A fraction times a power of two. -/
def scaleTwo (num den : Nat) (exponent : Int) : Nat × Nat :=
  let factor := Nat.pow 2 exponent.natAbs
  if exponent < 0 then (num, den * factor) else (num * factor, den)

/-- A fraction times a power of ten. -/
def scaleTen (num den : Nat) (exponent : Int) : Nat × Nat :=
  let factor := Nat.pow 10 exponent.natAbs
  if exponent < 0 then (num, den * factor) else (num * factor, den)

/-- The greatest power of two at or below a positive fraction. -/
def binaryOrder (num den : Nat) : Int :=
  let estimate : Int := (num.log2 : Int) - (den.log2 : Int)
  let scaled := scaleTwo num den (-estimate)
  if scaled.1 < scaled.2 then estimate - 1 else estimate

namespace Format

/-- The number of the format nearest to the positive fraction `num / den`. -/
def round (format : Format) (negative : Bool) (num den : Nat) : Binary :=
  let order := binaryOrder num den - (format.precision : Int) + 1
  let exponent := max format.least order
  let scaled := scaleTwo num den (-exponent)
  let significand := divNearest scaled.1 scaled.2
  let carried := significand = Nat.pow 2 format.precision
  let significand := if carried then Nat.pow 2 (format.precision - 1) else significand
  let exponent := if carried then exponent + 1 else exponent
  if format.greatest < exponent then .infinite negative
  else if significand = 0 then .finite negative 0 0
  else .finite negative significand exponent

end Format

namespace Binary

/-- Why a text is not a floating number. -/
inductive Problem where
  | empty
  | malformed
  deriving DecidableEq, Repr

namespace Problem

def text : Problem → String
  | empty => "cannot parse float from empty string"
  | malformed => "invalid float literal"

end Problem

/-- A decimal number: `digits * 10 ^ exponent`. -/
structure Decimal where
  digits : Nat
  exponent : Int

/-- Reads an exponent: an optional sign and at least one digit. -/
def readExponent? (text : List Char) : Option Int :=
  let magnitude? (digits : List Char) : Option Nat :=
    if !digits.isEmpty && digits.all Char.isDigit then some (decimalFrom 0 digits) else none
  match text with
  | '-' :: digits => (magnitude? digits).map fun n => -(n : Int)
  | '+' :: digits => (magnitude? digits).map Int.ofNat
  | digits => (magnitude? digits).map Int.ofNat

/-- Reads digits around an optional point, at least one digit in all, and an optional exponent. -/
def readDecimal? (text : List Char) : Option Decimal :=
  let whole := text.takeWhile Char.isDigit
  let afterWhole := text.dropWhile Char.isDigit
  let pointed := match afterWhole with
    | '.' :: rest => (rest.takeWhile Char.isDigit, rest.dropWhile Char.isDigit)
    | _ => ([], afterWhole)
  let fraction := pointed.1
  let value := decimalFrom 0 (whole ++ fraction)
  let shift := -(fraction.length : Int)
  if whole.isEmpty && fraction.isEmpty then none
  else match pointed.2 with
    | [] => some ⟨value, shift⟩
    | c :: rest =>
      if c = 'e' || c = 'E' then (readExponent? rest).map fun exponent => ⟨value, shift + exponent⟩
      else none

/-- The number of a format nearest to a decimal number. Beyond `10 ^ 400` every format is infinite
and below `10 ^ -400` zero, so no power beyond them is computed. -/
def ofDecimal (format : Format) (negative : Bool) (decimal : Decimal) : Binary :=
  let order : Int := ((Nat.toDigits 10 decimal.digits).length : Int) + decimal.exponent
  if decimal.digits = 0 then .finite negative 0 0
  else if 400 < order then .infinite negative
  else if order < -400 then .finite negative 0 0
  else
    let scaled := scaleTen decimal.digits 1 decimal.exponent
    format.round negative scaled.1 scaled.2

/-- The special value that a text names, whatever the case of its letters. -/
def named? (negative : Bool) (text : List Char) : Option Binary :=
  let name := String.ofList (text.map Char.toLower)
  if name = "inf" || name = "infinity" then some (.infinite negative)
  else if name = "nan" then some .notNumber
  else none

/-- Reads a text without its sign. -/
def readUnsigned (format : Format) (negative : Bool) (text : List Char) :
    Except Problem Binary :=
  match readDecimal? text with
  | some decimal => .ok (ofDecimal format negative decimal)
  | none =>
    match named? negative text with
    | some value => .ok value
    | none => .error .malformed

/-- Reads a floating number of a format. -/
def read (format : Format) : List Char → Except Problem Binary
  | [] => .error .empty
  | '-' :: text => readUnsigned format true text
  | '+' :: text => readUnsigned format false text
  | text => readUnsigned format false text

end Binary
end EntityQuery.Number

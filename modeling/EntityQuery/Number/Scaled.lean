import EntityQuery.Number.Whole

/-!
# Scaled decimals

A scaled decimal is a whole mantissa below `2 ^ 96` over a power of ten up to `10 ^ 28`. Trailing
zeros after the point belong to the number, so `1.50` and `1.5` differ.

* `Scaled.readPlain`: digits with a point, and low lines anywhere behind the first digit. The first
  fractional digit that does not fit rounds the number, a half upwards; the digits behind it do not
  count.
* `Scaled.readScientific`: the same with an exponent.
-/

namespace EntityQuery.Number

/-- The number `mantissa / 10 ^ scale` with a sign; zero is never negative. -/
structure Scaled where
  negative : Bool
  mantissa : Nat
  scale : Nat
  deriving DecidableEq, Repr

namespace Scaled

/-- The first mantissa that does not fit. -/
def mantissaLimit : Nat := Nat.pow 2 96

/-- The greatest scale. -/
def maxScale : Nat := 28

/-- Why a text is not a scaled decimal. -/
inductive Problem where
  | empty
  | unknownCharacter
  | twoPoints
  | leadingSeparator
  | noDigits
  | tooManyDigits
  | roundingOverflow
  | malformedExponent
  | scaleTooLarge (scale : Nat)
  | tooLarge
  deriving DecidableEq, Repr

namespace Problem

def text : Problem → String
  | empty => "Invalid decimal: empty"
  | unknownCharacter => "Invalid decimal: unknown character"
  | twoPoints => "Invalid decimal: two decimal points"
  | leadingSeparator => "Invalid decimal: must start lead with a number"
  | noDigits => "Invalid decimal: no digits found"
  | tooManyDigits => "Invalid decimal: overflow from too many digits"
  | roundingOverflow => "Invalid decimal: overflow from mantissa after rounding"
  | malformedExponent => "Failed to parse"
  | scaleTooLarge scale => s!"Scale exceeds the maximum precision allowed: {scale} > {maxScale}"
  | tooLarge => "Number exceeds maximum value that can be represented."

end Problem

/-- The number without a sign on zero. -/
def ofParts (negative : Bool) (mantissa scale : Nat) : Scaled :=
  ⟨negative && mantissa != 0, mantissa, scale⟩

/-- The complaint about a character that cannot stand where it does. -/
def reject : Char → Problem
  | '.' => .twoPoints
  | '_' => .leadingSeparator
  | _ => .unknownCharacter

/-- Checks that only digits and low lines remain. -/
def checkRest : List Char → Except Problem Unit
  | [] => .ok ()
  | '_' :: rest => checkRest rest
  | c :: rest => if c.isDigit then checkRest rest else .error (reject c)

/-- Ends a number whose next fractional digit does not fit: a half or more is rounded up. When
rounding itself reaches the limit, the last place is given up. -/
def roundLast (negative : Bool) (mantissa scale digit : Nat) : Except Problem Scaled :=
  if digit < 5 then .ok (ofParts negative mantissa scale)
  else if mantissa + 1 < mantissaLimit then .ok (ofParts negative (mantissa + 1) scale)
  else if scale = 0 then .error .roundingOverflow
  else .ok (ofParts negative ((mantissa + 1 + 4) / 10) (scale - 1))

/-- How far a number is read: its sign, mantissa and scale so far, whether the point was met, and
whether a digit was. -/
structure Reading where
  negative : Bool
  mantissa : Nat := 0
  scale : Nat := 0
  pointed : Bool := false
  started : Bool := false

namespace Reading

/-- The number read so far. -/
def number (reading : Reading) : Scaled :=
  ofParts reading.negative reading.mantissa reading.scale

/-- Every fractional place is taken. -/
def isComplete (reading : Reading) : Bool := reading.pointed && maxScale ≤ reading.scale

/-- Ends the number with a digit that is not kept; what follows it must still be well formed. -/
def roundBy (reading : Reading) (digit : Nat) (rest : List Char) : Except Problem Scaled := do
  checkRest rest
  roundLast reading.negative reading.mantissa reading.scale digit

/-- The reading with a further digit. -/
def push (reading : Reading) (digit : Nat) : Reading :=
  { reading with
    mantissa := reading.mantissa * 10 + digit
    scale := if reading.pointed then reading.scale + 1 else 0
    started := true }

end Reading

/-- Reads the characters after the sign. -/
def readFrom (reading : Reading) : List Char → Except Problem Scaled
  | [] => if reading.started then .ok reading.number else .error .noDigits
  | c :: rest =>
    match digit? 10 c with
    | some digit =>
      if reading.isComplete then reading.roundBy digit rest
      else if reading.mantissa * 10 + digit < mantissaLimit then readFrom (reading.push digit) rest
      else if reading.pointed then reading.roundBy digit rest
      else .error .tooManyDigits
    | none =>
      if c = '_' && reading.started then readFrom reading rest
      else if c = '.' && !reading.pointed then readFrom { reading with pointed := true } rest
      else .error (reject c)

/-- Reads a number without an exponent. -/
def readPlain : List Char → Except Problem Scaled
  | [] => .error .empty
  | '-' :: text => readFrom { negative := true } text
  | '+' :: text => readFrom { negative := false } text
  | text => readFrom { negative := false } text

/-- The number with another scale. -/
def withScale (number : Scaled) (scale : Nat) : Except Problem Scaled :=
  if scale ≤ maxScale then .ok { number with scale := scale } else .error (.scaleTooLarge scale)

/-- The number divided by a power of ten. -/
def lower (number : Scaled) (power : Nat) : Except Problem Scaled :=
  if maxScale < power then .error (.scaleTooLarge power)
  else number.withScale (number.scale + power)

/-- The number multiplied by a power of ten. Up to its scale only the point moves; beyond, the
product is a whole number. -/
def raise (number : Scaled) (power : Nat) : Except Problem Scaled :=
  if power ≤ number.scale then number.withScale (number.scale - power)
  else if maxScale < power then .error (.scaleTooLarge power)
  else
    let product := number.mantissa * Nat.pow 10 (power - number.scale)
    if product < mantissaLimit then .ok (ofParts number.negative product 0) else .error .tooLarge

/-- The text before and after the first letter e. -/
def splitExponent (text : List Char) : List Char × List Char :=
  let isMark (c : Char) : Bool := c = 'e' || c = 'E'
  (text.takeWhile fun c => !isMark c, (text.dropWhile fun c => !isMark c).drop 1)

/-- Reads an exponent. -/
def readPower (text : List Char) : Except Problem Nat :=
  (Whole.readUnsigned 32 text).mapError fun _ => .malformedExponent

/-- Reads a number with an exponent. -/
def readScientific (text : List Char) : Except Problem Scaled := do
  let parts := splitExponent text
  let number ← readPlain parts.1
  match parts.2 with
  | '-' :: power => number.lower (← readPower power)
  | power => number.raise (← readPower power)

/-- Reads a number, with an exponent if the text has one. -/
def read (text : List Char) : Except Problem Scaled :=
  if text.any (fun c => c = 'e' || c = 'E') then readScientific text else readPlain text

/-- The number with all places of its scale. -/
def text (number : Scaled) : String :=
  let digits := Nat.toDigits 10 number.mantissa
  let padded := List.replicate (number.scale + 1 - digits.length) '0' ++ digits
  let whole := padded.length - number.scale
  let places := if number.scale = 0 then [] else '.' :: padded.drop whole
  (if number.negative then "-" else "") ++ String.ofList (padded.take whole ++ places)

end Scaled
end EntityQuery.Number

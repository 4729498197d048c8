import EntityQuery.Number.Digit

/-!
# Whole numbers

Whole numbers are read in a radix, either within the range of a signed or unsigned word or without
a bound.

* `Whole.readSigned`, `Whole.readUnsigned`: an optional sign and at least one digit. The first
  offending digit decides between a digit that is none and a value out of range.
* `Whole.readUnbounded`: decimal, with low lines allowed between the digits.
-/

namespace EntityQuery.Number.Whole

/-- Why a text is not a whole number. -/
inductive Problem where
  | empty
  | invalidDigit
  | tooLarge
  | tooSmall
  deriving DecidableEq, Repr

namespace Problem

def text : Problem → String
  | empty => "cannot parse integer from empty string"
  | invalidDigit => "invalid digit found in string"
  | tooLarge => "number too large to fit in target type"
  | tooSmall => "number too small to fit in target type"

end Problem

/-- Reads digits after `value`, which must stay at or below `limit`. -/
def readDigits (radix limit : Nat) (excess : Problem) : Nat → List Char → Except Problem Nat
  | value, [] => .ok value
  | value, c :: rest =>
    match digit? radix c with
    | none => .error .invalidDigit
    | some digit =>
      let next := value * radix + digit
      if limit < next then .error excess else readDigits radix limit excess next rest

/-- Reads at least one digit. -/
def readMagnitude (radix limit : Nat) (excess : Problem) : List Char → Except Problem Nat
  | [] => .error .invalidDigit
  | digits => readDigits radix limit excess 0 digits

/-- Reads a number of a signed word of `bits` bits. -/
def readSigned (bits radix : Nat) : List Char → Except Problem Int
  | [] => .error .empty
  | '-' :: digits =>
    (readMagnitude radix (Nat.pow 2 (bits - 1)) .tooSmall digits).map fun n => -(n : Int)
  | '+' :: digits => (readMagnitude radix (Nat.pow 2 (bits - 1) - 1) .tooLarge digits).map Int.ofNat
  | digits => (readDigits radix (Nat.pow 2 (bits - 1) - 1) .tooLarge 0 digits).map Int.ofNat

/-- Reads a decimal number of an unsigned word of `bits` bits. -/
def readUnsigned (bits : Nat) : List Char → Except Problem Nat
  | [] => .error .empty
  | '+' :: digits => readMagnitude 10 (Nat.pow 2 bits - 1) .tooLarge digits
  | digits => readMagnitude 10 (Nat.pow 2 bits - 1) .tooLarge digits

/-- Reads decimal digits after `value`, passing over low lines. -/
def readSeparated : Nat → List Char → Except Problem Nat
  | value, [] => .ok value
  | value, '_' :: rest => readSeparated value rest
  | value, c :: rest =>
    match digit? 10 c with
    | none => .error .invalidDigit
    | some digit => readSeparated (value * 10 + digit) rest

/-- Reads a number without sign or with a plus sign that no second one follows. -/
def readNatural (text : List Char) : Except Problem Nat :=
  let digits := match text with
    | '+' :: '+' :: _ => text
    | '+' :: rest => rest
    | _ => text
  match digits with
  | [] => .error .empty
  | '_' :: _ => .error .invalidDigit
  | _ => readSeparated 0 digits

/-- Reads a decimal number of any size. -/
def readUnbounded : List Char → Except Problem Int
  | '-' :: '+' :: _ => .error .invalidDigit
  | '-' :: digits => (readNatural digits).map fun n => -(n : Int)
  | digits => (readNatural digits).map Int.ofNat

end EntityQuery.Number.Whole

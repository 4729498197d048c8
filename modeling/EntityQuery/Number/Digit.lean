/-!
# Digits

The value of a digit in a radix up to sixteen, and the value of a row of decimal digits.
-/

namespace EntityQuery.Number

/-- The value of a digit below `radix`; letters in either case stand for ten to fifteen. -/
def digit? (radix : Nat) (c : Char) : Option Nat :=
  let value? :=
    if c.isDigit then some (c.toNat - 48)
    else if 97 ≤ c.toNat && c.toNat ≤ 102 then some (c.toNat - 87)
    else if 65 ≤ c.toNat && c.toNat ≤ 70 then some (c.toNat - 55)
    else none
  match value? with
  | some value => if value < radix then some value else none
  | none => none

theorem digit?_lt {radix : Nat} {c : Char} {value : Nat} (h : digit? radix c = some value) :
    value < radix := by
  simp only [digit?] at h
  split at h
  · split at h
    · simp only [Option.some.injEq] at h
      omega
    · cases h
  · cases h

/-- The value of a row of decimal digits read after `start`. -/
def decimalFrom (start : Nat) (digits : List Char) : Nat :=
  digits.foldl (fun value c => value * 10 + (c.toNat - 48)) start

@[simp] theorem decimalFrom_nil (start : Nat) : decimalFrom start [] = start := rfl

@[simp] theorem decimalFrom_cons (start : Nat) (c : Char) (digits : List Char) :
    decimalFrom start (c :: digits) = decimalFrom (start * 10 + (c.toNat - 48)) digits := by
  rw [decimalFrom, List.foldl_cons, decimalFrom]

end EntityQuery.Number

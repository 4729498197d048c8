import EntityQuery.Number.Binary

/-!
# Shortest decimal text

A binary floating number is written with the fewest decimal digits that read back as the same
number; of two such decimals the nearer one is taken, and of two equally near ones the greater.
The digits are always written out in place, without an exponent.

* `Interval`: the fractions that round to a number; its ends belong to it when the significand is
  even.
* `Shortest.ofInterval`: the first decimal grid, from the coarsest, with a point in the interval.
-/

namespace EntityQuery.Number

/-- A positive value with the ends of the interval of fractions that round to it, over one
denominator. -/
structure Interval where
  low : Nat
  value : Nat
  high : Nat
  den : Nat
  closed : Bool

namespace Interval

/-- The fractions that round to `significand * 2 ^ exponent`. Below a power of two the neighbour
is at half the distance. -/
def ofSignificand (format : Format) (significand : Nat) (exponent : Int) : Interval :=
  let below := if significand = Nat.pow 2 (format.precision - 1) then 1 else 2
  let scale := scaleTwo 1 4 exponent
  ⟨(4 * significand - below) * scale.1, 4 * significand * scale.1,
    (4 * significand + 2) * scale.1, scale.2, significand % 2 = 0⟩

/-- The fraction `num / den` lies in the interval. -/
def holds (interval : Interval) (num den : Nat) : Bool :=
  let low := interval.low * den
  let high := interval.high * den
  let point := num * interval.den
  if interval.closed then low ≤ point && point ≤ high else low < point && point < high

end Interval

/-- A decimal number: `digits * 10 ^ exponent`. -/
structure Shortest where
  digits : Nat
  exponent : Int

namespace Shortest

/-- The point of the grid of step `10 ^ exponent` that stands for the interval, if one lies in it:
one of the two neighbours of the value. -/
def onGrid? (interval : Interval) (exponent : Int) : Option Nat :=
  let scaled := scaleTen interval.value interval.den (-exponent)
  let down := scaled.1 / scaled.2
  let inside (digits : Nat) : Bool :=
    let point := scaleTen digits 1 exponent
    interval.holds point.1 point.2
  match decide (0 < down) && inside down, inside (down + 1) with
  | true, true => if 2 * (scaled.1 % scaled.2) < scaled.2 then some down else some (down + 1)
  | true, false => some down
  | false, true => some (down + 1)
  | false, false => none

/-- The first hit on the grids of step `10 ^ exponent`, `10 ^ (exponent - 1)` and so on. -/
def search (interval : Interval) : Nat → Int → Shortest
  | 0, exponent => ⟨0, exponent⟩
  | fuel + 1, exponent =>
    match onGrid? interval exponent with
    | some digits => ⟨digits, exponent⟩
    | none => search interval fuel (exponent - 1)

/-- The shortest decimal in the interval. The search starts above the value and ends at the latest
where the grid holds the value itself. -/
def ofInterval (interval : Interval) : Shortest :=
  let start := (Nat.toDigits 10 (interval.high / interval.den)).length
  search interval (start + interval.den.log2 + 2) start

/-- The decimal with all digits in place. -/
def text (decimal : Shortest) : String :=
  let digits := Nat.toDigits 10 decimal.digits
  let shift := decimal.exponent.natAbs
  if 0 ≤ decimal.exponent then String.ofList (digits ++ List.replicate shift '0')
  else
    let padded := List.replicate (shift + 1 - digits.length) '0' ++ digits
    let whole := padded.length - shift
    String.ofList (padded.take whole ++ '.' :: padded.drop whole)

end Shortest

namespace Binary

/-- The shortest text of a number of the format. -/
def text (format : Format) : Binary → String
  | notNumber => "NaN"
  | infinite negative => if negative then "-inf" else "inf"
  | finite negative significand exponent =>
    let digits :=
      if significand = 0 then "0"
      else (Shortest.ofInterval (Interval.ofSignificand format significand exponent)).text
    if negative then "-" ++ digits else digits

end Binary
end EntityQuery.Number

/-!
# Ranges of code points

A character class beyond ASCII is a table of closed ranges of code points. Inside ASCII every
class of this library is given by a rule of its own, so that facts about plain text never look
at a table.
-/

namespace EntityQuery.Text

/-- Closed ranges of code points. -/
abbrev Ranges := List (Nat × Nat)

/-- The code point lies in one of the ranges. -/
def Ranges.holds (table : Ranges) (point : Nat) : Bool :=
  table.any fun range => range.1 ≤ point && point ≤ range.2

@[simp] theorem Ranges.holds_nil (point : Nat) : Ranges.holds [] point = false := rfl

theorem Ranges.holds_cons (range : Nat × Nat) (table : Ranges) (point : Nat) :
    Ranges.holds (range :: table) point =
      ((decide (range.1 ≤ point) && decide (point ≤ range.2)) || Ranges.holds table point) := rfl

end EntityQuery.Text

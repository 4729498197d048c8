import EntityQuery.Text.Ranges

/-!
# Blank characters

The characters that may stand between two tokens: the Unicode property White_Space. They are
tab to carriage return, space, next line, no-break space, and the spaces and separators of the
table.
-/

namespace EntityQuery.Text

/-- The blank characters beyond ASCII. -/
def blankRanges : Ranges :=
  [(0x85, 0x85), (0xA0, 0xA0), (0x1680, 0x1680), (0x2000, 0x200A), (0x2028, 0x2029),
   (0x202F, 0x202F), (0x205F, 0x205F), (0x3000, 0x3000)]

/-- The character is blank. -/
def isBlank (c : Char) : Bool :=
  if c.toNat < 128 then c.toNat == 32 || (9 ≤ c.toNat && c.toNat ≤ 13)
  else blankRanges.holds c.toNat

/-- The text without the blank characters it begins with. -/
def trimStart (text : List Char) : List Char := text.dropWhile isBlank

@[simp] theorem trimStart_nil : trimStart [] = [] := rfl

theorem trimStart_cons (c : Char) (text : List Char) :
    trimStart (c :: text) = if isBlank c then trimStart text else c :: text := by
  simp only [trimStart, List.dropWhile_cons]

theorem trimStart_length_le (text : List Char) : (trimStart text).length ≤ text.length :=
  (List.dropWhile_sublist _).length_le

end EntityQuery.Text

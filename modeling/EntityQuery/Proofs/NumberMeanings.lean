import EntityQuery.Proofs.LongestNumbers
import EntityQuery.Resolved.Value

/-!
# What written numbers mean

The kind of a number is decided where the text is read, and its value is taken from the text later,
in another place and by the kind alone. Both agree: the mark of the type and of the radix are what
is left out, the digits are all that is left, and the only faults are a value that is too great for
its word and an octal number with an eight or a nine.

* `readSigned_row`, `readUnbounded_row`, `readDecimal?_row`, `readDecimal?_fractional`: what the
  readers of numbers make of a row of digits.
* `Numeral.yields`: the value of a whole number of each kind.
* `Numeral.float_reads`, `Numeral.double_reads`: floating numbers have a value.
* `number_means`: the value of a text that is a number, and the report of its fault.
-/

namespace EntityQuery.Grammar

open EntityQuery.Text
open EntityQuery.Number
open EntityQuery.Phrase (Literal LiteralKind)

/-! ## Rows of digits -/

section Whole

open Number.Whole

variable {radix limit : Nat} {excess : Problem} {digits : List Char}

theorem ne_sign_of_isHexDigit {c : Char} (h : isHexDigit c = true) : c ≠ '-' ∧ c ≠ '+' :=
  of_isHexDigit (p := fun d => d ≠ '-' ∧ d ≠ '+') h (by decide)

/-- A row of digits has no sign. -/
theorem readSigned_unsigned {bits : Nat} (h : Row isHexDigit digits) :
    readSigned bits radix digits
      = (readDigits radix (2 ^ (bits - 1) - 1) .tooLarge 0 digits).map Int.ofNat := by
  cases digits with
  | nil => exact absurd rfl h.ne_nil
  | cons c digits =>
    obtain ⟨hminus, hplus⟩ := ne_sign_of_isHexDigit (h.all c List.mem_cons_self)
    unfold readSigned
    split
    · rename_i heq
      cases heq
    · rename_i heq
      cases heq
      exact absurd rfl hminus
    · rename_i heq
      cases heq
      exact absurd rfl hplus
    · rfl

/-- A row of digits is the number that it writes if that fits in a signed word. -/
theorem readSigned_row {bits : Nat} (hradix : 0 < radix) (h : Row isHexDigit digits)
    (hdigits : ∀ c ∈ digits, digit? radix c = some (digitValue c)) :
    readSigned bits radix digits =
      if valueIn radix digits < 2 ^ (bits - 1) then .ok (valueIn radix digits : Int)
      else .error .tooLarge := by
  have hpositive : 0 < 2 ^ (bits - 1) := Nat.pow_pos (by decide)
  rw [readSigned_unsigned h, readDigits_row hradix hdigits (Nat.zero_le _), Nat.zero_mul,
    Nat.zero_add]
  by_cases hfits : valueIn radix digits < 2 ^ (bits - 1)
  · rw [if_pos hfits, if_pos (by omega)]
    rfl
  · rw [if_neg hfits, if_neg (by omega)]
    rfl

theorem readSeparated_row {start : Nat} (hdigits : ∀ c ∈ digits, c.isDigit = true) :
    readSeparated start digits
      = .ok (start * 10 ^ digits.length + valueIn 10 digits) := by
  induction digits generalizing start with
  | nil => simp [readSeparated]
  | cons c digits ih =>
    have hc := hdigits c List.mem_cons_self
    have hline : c ≠ '_' := by
      rintro rfl
      exact absurd hc (by decide)
    have hrest : readSeparated (start * 10 + digitValue c) digits
        = .ok ((start * 10 + digitValue c) * 10 ^ digits.length + valueIn 10 digits) :=
      ih fun d hd => hdigits d (List.mem_cons_of_mem c hd)
    simp only [readSeparated, digit?_ten hc]
    rw [hrest, valueIn_cons, List.length_cons, pow_succ]
    congr 1
    ring

theorem readUnbounded_row (h : Row Char.isDigit digits) :
    readUnbounded digits = .ok (valueIn 10 digits : Int) := by
  cases digits with
  | nil => exact absurd rfl h.ne_nil
  | cons c digits =>
    have hc := h.all c List.mem_cons_self
    have hsign := ne_sign_of_isHexDigit (isHexDigit_of_isDigit hc)
    have hline : c ≠ '_' := by
      rintro rfl
      exact absurd hc (by decide)
    have hnatural : readNatural (c :: digits) = .ok (valueIn 10 (c :: digits)) := by
      simp [readNatural, hsign.2, hline, readSeparated_row h.all]
    unfold readUnbounded
    split
    · rename_i heq
      cases heq
      exact absurd rfl hsign.1
    · rename_i heq
      cases heq
      exact absurd rfl hsign.1
    · rw [hnatural]
      rfl

end Whole

/-! ## Floating numbers -/

section Floating

open Number.Binary

theorem readExponent?_row {sign digits : List Char}
    (hsign : sign = [] ∨ sign = ['+'] ∨ sign = ['-']) (hdigits : Row Char.isDigit digits) :
    (readExponent? (sign ++ digits)).isSome = true := by
  have hmagnitude : (!digits.isEmpty && digits.all Char.isDigit) = true := by
    simpa [hdigits.isEmpty] using hdigits.all
  rcases hsign with rfl | rfl | rfl
  · cases digits with
    | nil => exact absurd rfl hdigits.ne_nil
    | cons c digits =>
      have hsign := ne_sign_of_isHexDigit
        (isHexDigit_of_isDigit (hdigits.all c List.mem_cons_self))
      rw [List.nil_append]
      unfold readExponent?
      split
      · rename_i heq
        cases heq
        exact absurd rfl hsign.1
      · rename_i heq
        cases heq
        exact absurd rfl hsign.2
      · simp only [hmagnitude, if_true, Option.map_some, Option.isSome_some]
  · simp [readExponent?, hmagnitude]
  · simp [readExponent?, hmagnitude]

theorem readDecimal?_row {digits : List Char} (h : Row Char.isDigit digits) :
    (readDecimal? digits).isSome = true := by
  have hnone : ∀ c ∈ ([] : List Char).head?, c.isDigit = false := by simp
  obtain ⟨htake, hdrop⟩ := takeWhile_front h.all hnone
  rw [List.append_nil] at htake hdrop
  simp [readDecimal?, htake, hdrop, h.ne_nil]

/-- What stands behind the digits is nothing or an exponent. -/
theorem readDecimal?_fractional {decimal : List Char} (h : Fractional decimal) :
    (readDecimal? decimal).isSome = true := by
  cases h with
  | @raised whole exponent hwhole hexponent =>
    obtain ⟨htake, hdrop⟩ := takeWhile_front hwhole.all fun c hc =>
      (hexponent.head [] c (by rwa [List.append_nil])).1
    obtain ⟨hmark, hsign, hdigits⟩ := hexponent
    rename_i mark sign digits
    have hpoint : mark ≠ '.' := by rcases hmark with rfl | rfl <;> decide
    have hexponent := readExponent?_row hsign hdigits
    simp [readDecimal?, htake, hdrop, hwhole.ne_nil, hpoint, hmark, hexponent]
  | @pointed whole fraction exponent hwhole hfraction hsome hexponent =>
    have hpoint : ∀ c ∈ ('.' :: (fraction ++ exponent)).head?, c.isDigit = false := by
      rintro c ⟨⟩
      decide
    obtain ⟨htake, hdrop⟩ := takeWhile_front hwhole hpoint
    have hbehind : ∀ c ∈ exponent.head?, c.isDigit = false := by
      rcases hexponent with rfl | hexponent
      · exact fun c hc => by cases hc
      · exact fun c hc => (hexponent.head [] c (by rwa [List.append_nil])).1
    obtain ⟨htakeFraction, hdropFraction⟩ := takeWhile_front hfraction hbehind
    have hsome : ¬(whole = [] ∧ fraction = []) := by
      rintro ⟨rfl, rfl⟩
      exact hsome rfl
    generalize fraction ++ exponent = behind at htake hdrop htakeFraction hdropFraction
    generalize whole ++ '.' :: behind = decimal at htake hdrop
    rcases hexponent with rfl | ⟨hmark, hsign, hdigits⟩
    · simp [readDecimal?, htake, hdrop, htakeFraction, hdropFraction, hsome]
    · have hexponent := readExponent?_row hsign hdigits
      simp [readDecimal?, htake, hdrop, htakeFraction, hdropFraction, hsome, hmark, hexponent]

/-- A decimal without a sign is a floating number of every format. -/
theorem read_decimal (format : Format) {decimal : List Char}
    (hsign : ∀ c ∈ decimal.head?, c ≠ '-' ∧ c ≠ '+')
    (hdecimal : (readDecimal? decimal).isSome = true) :
    ∃ number, Number.Binary.read format decimal = .ok number := by
  obtain ⟨value, hvalue⟩ := Option.isSome_iff_exists.mp hdecimal
  have hunsigned (negative : Bool) :
      readUnsigned format negative decimal = .ok (ofDecimal format negative value) := by
    simp [readUnsigned, hvalue]
  cases decimal with
  | nil => cases hdecimal
  | cons c rest =>
    obtain ⟨hminus, hplus⟩ := hsign c rfl
    refine ⟨ofDecimal format false value, ?_⟩
    unfold Number.Binary.read
    split
    · rename_i heq
      cases heq
    · rename_i heq
      cases heq
      exact absurd rfl hminus
    · rename_i heq
      cases heq
      exact absurd rfl hplus
    · exact hunsigned false

end Floating

/-! ## Marks of types -/

section Marked

open Resolved.Literal

/-- A mark at the end is left out. -/
theorem dropMark_marked {mark front letters : List Char} (h : foldCase letters = mark) :
    dropMark mark (front ++ letters) = front := by
  have hlength : mark.length = letters.length := by rw [← h, foldCase_length]
  have hfront : (front ++ letters).take ((front ++ letters).length - mark.length) = front := by
    rw [hlength, List.length_append, Nat.add_sub_cancel, List.take_left]
  simp only [dropMark, hfront, List.drop_left, if_pos h]

/-- Where no character could be the mark, nothing is left out. -/
theorem dropMark_unmarked {letter : Char} {text : List Char}
    (h : ∀ c ∈ text, c.toLower ≠ letter) : dropMark [letter] text = text := by
  have hne (front : List Char) : foldCase (text.drop front.length) ≠ [letter] := by
    intro heq
    obtain ⟨c, rest, hdrop, hc, -⟩ := List.map_eq_cons_iff.mp heq
    have hmem : c ∈ text := List.mem_of_mem_drop (hdrop ▸ List.mem_cons_self)
    exact h c hmem hc
  unfold dropMark
  exact if_neg (hne _)

theorem not_float_of_digit {c : Char} (h : c.isDigit = true) : c.toLower ≠ 'f' :=
  of_isHexDigit (p := fun d => d.isDigit = true → d.toLower ≠ 'f') (isHexDigit_of_isDigit h)
    (by decide) h

theorem not_long_of_hexDigit {c : Char} (h : isHexDigit c = true) : c.toLower ≠ 'l' := by
  intro hlower
  rw [isHexDigit_of_long hlower] at h
  cases h

theorem Exponent.not_float {exponent : List Char} (h : Exponent exponent) :
    ∀ c ∈ exponent, c.toLower ≠ 'f' := by
  obtain ⟨hmark, hsign, hdigits⟩ := h
  rename_i mark sign digits
  have hmarkLower : mark.toLower ≠ 'f' := by rcases hmark with rfl | rfl <;> decide
  have hsignLower : ∀ c ∈ sign, c.toLower ≠ 'f' := by
    rcases hsign with rfl | rfl | rfl
    · simp
    · simp
    · simp
  intro c hc
  rcases List.mem_cons.mp hc with rfl | hc
  · exact hmarkLower
  · rcases List.mem_append.mp hc with hc | hc
    · exact hsignLower c hc
    · exact not_float_of_digit (hdigits.all c hc)

theorem Fractional.not_float {decimal : List Char} (h : Fractional decimal) :
    ∀ c ∈ decimal, c.toLower ≠ 'f' := by
  intro c hc
  cases h with
  | raised hwhole hexponent =>
    rcases List.mem_append.mp hc with hc | hc
    · exact not_float_of_digit (hwhole.all c hc)
    · exact hexponent.not_float c hc
  | pointed hwhole hfraction _ hexponent =>
    rcases List.mem_append.mp hc with hc | hc
    · exact not_float_of_digit (hwhole c hc)
    · rcases List.mem_cons.mp hc with rfl | hc
      · decide
      · rcases List.mem_append.mp hc with hc | hc
        · exact not_float_of_digit (hfraction c hc)
        · rcases hexponent with rfl | hexponent
          · cases hc
          · exact hexponent.not_float c hc

/-- A number in a radix is long exactly with the mark. -/
theorem readRadix_row {radix : Nat} {digits letters : List Char} (hdigits : Row isHexDigit digits)
    (hletters : letters = [] ∨ foldCase letters = ['l']) :
    readRadix radix (digits ++ letters) =
      if letters = [] then (Number.Whole.readSigned 32 radix digits).map Value.integer
      else (Number.Whole.readSigned 64 radix digits).map Value.long := by
  have hbare : dropMark ['l'] (digits ++ letters) = digits := by
    rcases hletters with rfl | hletters
    · rw [List.append_nil]
      exact dropMark_unmarked fun c hc => not_long_of_hexDigit (hdigits.all c hc)
    · exact dropMark_marked hletters
  simp only [readRadix, hbare, List.length_append]
  by_cases hnil : letters = []
  · subst hnil
    rw [if_neg (by simp), if_pos rfl, List.append_nil]
  · have hpositive : 0 < letters.length := List.length_pos_iff.mpr hnil
    rw [if_pos (by omega), if_neg hnil]

end Marked

/-! ## Meanings -/

open Resolved.Literal
open Report (QueryError)

/-- The number as a value if it is at or below the greatest one. -/
def upTo? (make : Int → Value) (greatest value : Nat) : Option Value :=
  if value ≤ greatest then some (make value) else none

/-- The last letter of the text is the mark of a long number. -/
def isLong (text : List Char) : Bool := text.getLast?.any fun c => c.toLower = 'l'

/-- The number as a long value if the text is marked so, else as an integer. -/
def markedValue? (text : List Char) (value : Nat) : Option Value :=
  if isLong text then upTo? .long (2 ^ 63 - 1) value else upTo? .integer (2 ^ 31 - 1) value

/-- The decimal digits that the text begins with. -/
def decimalDigits (text : List Char) : List Char := text.takeWhile Char.isDigit

/-- The value of a whole number of the kind with the text, if it has one. -/
def wholeValue? (text : List Char) : LiteralKind → Option Value
  | .integer => upTo? .integer (2 ^ 31 - 1) (valueIn 10 (decimalDigits text))
  | .long => upTo? .long (2 ^ 63 - 1) (valueIn 10 (decimalDigits text))
  | .bigInteger => some (.bigInteger (valueIn 10 (decimalDigits text)))
  | .hex => markedValue? text (valueIn 16 ((text.drop 2).takeWhile isHexDigit))
  | .octal =>
    if '8' ∈ text ∨ '9' ∈ text then none else markedValue? text (valueIn 8 (decimalDigits text))
  | _ => none

/-- The kinds of whole numbers. -/
def wholeKinds : List LiteralKind := [.integer, .long, .bigInteger, .hex, .octal]

/-- The outcome is the value, or a fault of the number with the text where there is none. -/
def Yields (text : String) (outcome : Except LiteralFault Value) : Option Value → Prop
  | some value => outcome = .ok value
  | none => ∃ problem, outcome = .error (.whole text problem)

theorem yields_of_signed {text : String} {bits radix : Nat} {make : Int → Value}
    {digits : List Char} (hradix : 0 < radix) (h : Row isHexDigit digits)
    (hdigits : ∀ c ∈ digits, digit? radix c = some (digitValue c)) :
    Yields text (((Number.Whole.readSigned bits radix digits).map make).mapError (.whole text))
      (upTo? make (2 ^ (bits - 1) - 1) (valueIn radix digits)) := by
  have hpositive : 0 < 2 ^ (bits - 1) := Nat.pow_pos (by decide)
  rw [readSigned_row hradix h hdigits, upTo?]
  by_cases hfits : valueIn radix digits < 2 ^ (bits - 1)
  · rw [if_pos hfits, if_pos (by omega)]
    rfl
  · rw [if_neg hfits, if_neg (by omega)]
    exact ⟨_, rfl⟩

theorem isLong_digits (front : List Char) {digits letters : List Char}
    (hdigits : Row isHexDigit digits) (hletters : letters = [] ∨ foldCase letters = ['l']) :
    isLong (front ++ (digits ++ letters)) = !letters.isEmpty := by
  rcases hletters with rfl | hletters
  · have hlast := not_long_of_hexDigit (hdigits.all _ (List.getLast_mem hdigits.ne_nil))
    simp [isLong, List.getLast?_append, List.getLast?_eq_some_getLast hdigits.ne_nil, hlast]
  · obtain ⟨c, rest, rfl, hc, hrest⟩ := List.map_eq_cons_iff.mp hletters
    obtain rfl := List.map_eq_nil_iff.mp hrest
    simp [isLong, hc]

theorem yields_of_radix {text : String} {radix : Nat} (front : List Char)
    {digits letters : List Char} (hradix : 0 < radix) (h : Row isHexDigit digits)
    (hdigits : ∀ c ∈ digits, digit? radix c = some (digitValue c))
    (hletters : letters = [] ∨ foldCase letters = ['l']) :
    Yields text ((readRadix radix (digits ++ letters)).mapError (.whole text))
      (markedValue? (front ++ (digits ++ letters)) (valueIn radix digits)) := by
  rw [readRadix_row h hletters, markedValue?, isLong_digits front h hletters]
  by_cases hnil : letters = []
  · subst hnil
    exact yields_of_signed hradix h hdigits
  · rw [if_neg hnil, if_pos (by simp [hnil])]
    exact yields_of_signed hradix h hdigits

/-- An eight or a nine is no octal digit, however great the number before it is. -/
theorem readSigned_invalid (bits : Nat) {digits : List Char} (h : Row Char.isDigit digits)
    (hinvalid : '8' ∈ digits ∨ '9' ∈ digits) :
    ∃ problem, Number.Whole.readSigned bits 8 digits = .error problem := by
  have hnone : ∃ c ∈ digits, digit? 8 c = none := by
    rcases hinvalid with hmem | hmem
    · exact ⟨'8', hmem, by decide⟩
    · exact ⟨'9', hmem, by decide⟩
  have hrow : Row isHexDigit digits := ⟨h.ne_nil, fun c hc => isHexDigit_of_isDigit (h.all c hc)⟩
  obtain ⟨problem, hread⟩ : ∃ problem,
      Number.Whole.readDigits 8 (2 ^ (bits - 1) - 1) .tooLarge 0 digits = .error problem :=
    readDigits_invalid hnone
  exact ⟨problem, by rw [readSigned_unsigned hrow, hread]; rfl⟩

theorem Row.hexadecimal {digits : List Char} (h : Row Char.isDigit digits) :
    Row isHexDigit digits :=
  ⟨h.ne_nil, fun c hc => isHexDigit_of_isDigit (h.all c hc)⟩

theorem mem_of_unmarked {c : Char} {digits letters : List Char} (hc : c.toLower ≠ 'l')
    (hletters : letters = [] ∨ foldCase letters = ['l']) (h : c ∈ digits ++ letters) :
    c ∈ digits := by
  rcases List.mem_append.mp h with h | h
  · exact h
  · rcases hletters with rfl | hletters
    · cases h
    · have hfold : c.toLower ∈ foldCase letters := List.mem_map_of_mem h
      rw [hletters, List.mem_singleton] at hfold
      exact absurd hfold hc

theorem yields_octal {digits letters : List Char} (hdigits : Row Char.isDigit digits)
    (hletters : letters = [] ∨ foldCase letters = ['l'])
    (htake : decimalDigits (digits ++ letters) = digits) :
    Yields (String.ofList (digits ++ letters))
      (readValue .octal (String.ofList (digits ++ letters)))
      (wholeValue? (digits ++ letters) .octal) := by
  simp only [readValue, wholeValue?, String.toList_ofList, htake]
  by_cases hinvalid : '8' ∈ digits ++ letters ∨ '9' ∈ digits ++ letters
  · have hmem : '8' ∈ digits ∨ '9' ∈ digits :=
      hinvalid.imp (mem_of_unmarked (by decide) hletters) (mem_of_unmarked (by decide) hletters)
    rw [if_pos hinvalid, readRadix_row hdigits.hexadecimal hletters]
    split
    · obtain ⟨problem, hread⟩ := readSigned_invalid 32 hdigits hmem
      exact ⟨problem, by rw [hread]; rfl⟩
    · obtain ⟨problem, hread⟩ := readSigned_invalid 64 hdigits hmem
      exact ⟨problem, by rw [hread]; rfl⟩
  · have height : ∀ c ∈ digits, digit? 8 c = some (digitValue c) := by
      intro c hc
      have hne : ¬(c = '8' ∨ c = '9') := by
        rintro (rfl | rfl)
        · exact hinvalid (.inl (List.mem_append_left _ hc))
        · exact hinvalid (.inr (List.mem_append_left _ hc))
      rw [digit?_eight (hdigits.all c hc), if_neg hne]
    rw [if_neg hinvalid]
    exact yields_of_radix [] (by decide) hdigits.hexadecimal height hletters

/-- A whole number has its value. -/
theorem Numeral.yields {kind : LiteralKind} {text : List Char} (h : Numeral kind text)
    (hkind : kind ∈ wholeKinds) :
    Yields (String.ofList text) (readValue kind (String.ofList text)) (wholeValue? text kind) := by
  cases h with
  | @whole digits letters suffix? kind hdigits hletters hsuffix =>
    have htake : decimalDigits (digits ++ letters) = digits :=
      (takeWhile_front hdigits.all hletters.not_digit).1
    have hten : ∀ c ∈ digits, digit? 10 c = some (digitValue c) :=
      fun c hc => digit?_ten (hdigits.all c hc)
    cases suffix? with
    | none =>
      obtain rfl := marks_none hletters
      cases hzero : needlessZero digits with
      | true =>
        obtain rfl : kind = .octal := by simpa [decimalKind?, hzero] using hsuffix.symm
        exact yields_octal hdigits (.inl rfl) htake
      | false =>
        obtain rfl : kind = .integer := by simpa [decimalKind?, hzero] using hsuffix.symm
        simp only [readValue, wholeValue?, String.toList_ofList, htake]
        rw [List.append_nil]
        exact yields_of_signed (by decide) hdigits.hexadecimal hten
    | some suffix =>
      cases suffix with
      | bigInteger =>
        have hfold : foldCase letters = ['b', 'i'] := hletters
        obtain rfl : kind = .bigInteger := by simpa [decimalKind?] using hsuffix.symm
        simp only [readValue, wholeValue?, String.toList_ofList, htake]
        rw [dropMark_marked hfold, readUnbounded_row hdigits]
        rfl
      | long =>
        have hfold : foldCase letters = ['l'] := hletters
        cases hzero : needlessZero digits with
        | true =>
          obtain rfl : kind = .octal := by simpa [decimalKind?, hzero] using hsuffix.symm
          exact yields_octal hdigits (.inr hfold) htake
        | false =>
          obtain rfl : kind = .long := by simpa [decimalKind?, hzero] using hsuffix.symm
          simp only [readValue, wholeValue?, String.toList_ofList, htake]
          rw [dropMark_marked hfold]
          exact yields_of_signed (by decide) hdigits.hexadecimal hten
      | bigDecimal | float | double =>
        cases hsuffix
        exact absurd hkind (by decide)
  | @fractional decimal letters suffix? kind hdecimal hletters hsuffix =>
    have hfractional : kind ∉ wholeKinds := by
      cases suffix? with
      | none =>
        cases hsuffix
        decide
      | some suffix =>
        cases suffix <;> cases hsuffix <;> decide
    exact absurd hkind hfractional
  | @hex mark digits letters hmark hdigits hletters =>
    have hbehind : ∀ c ∈ letters.head?, isHexDigit c = false := by
      rcases hletters with rfl | hletters
      · exact fun c hc => by cases hc
      · obtain ⟨c, rest, rfl, hc, -⟩ := List.map_eq_cons_iff.mp hletters
        rintro d ⟨⟩
        exact isHexDigit_of_long hc
    have htake : (digits ++ letters).takeWhile isHexDigit = digits :=
      (takeWhile_front hdigits.all hbehind).1
    have hdrop : dropRadixMark ('0' :: mark :: (digits ++ letters)) = digits ++ letters := by
      rcases hmark with rfl | rfl <;> rfl
    simp only [readValue, wholeValue?, String.toList_ofList, hdrop, List.drop_succ_cons,
      List.drop_zero, htake]
    exact yields_of_radix ['0', mark] (by decide) hdigits
      (fun c hc => digit?_sixteen (hdigits.all c hc)) hletters

/-- Digits with no mark of a type are a decimal, with a point and an exponent or without. -/
def IsDecimal (decimal : List Char) : Prop := Row Char.isDigit decimal ∨ Fractional decimal

theorem IsDecimal.not_float {decimal : List Char} (h : IsDecimal decimal) :
    ∀ c ∈ decimal, c.toLower ≠ 'f' := by
  rcases h with h | h
  · exact fun c hc => not_float_of_digit (h.all c hc)
  · exact h.not_float

theorem IsDecimal.unsigned {decimal : List Char} (h : IsDecimal decimal) :
    ∀ c ∈ decimal.head?, c ≠ '-' ∧ c ≠ '+' := by
  have hdigit {c : Char} (hc : c.isDigit = true) : c ≠ '-' ∧ c ≠ '+' :=
    ne_sign_of_isHexDigit (isHexDigit_of_isDigit hc)
  intro c hc
  rcases h with h | h
  · exact hdigit (h.all c (List.mem_of_mem_head? hc))
  · cases h with
    | @raised whole exponent hwhole hexponent =>
      cases whole with
      | nil => exact absurd rfl hwhole.ne_nil
      | cons d whole =>
        cases hc
        exact hdigit (hwhole.all c List.mem_cons_self)
    | @pointed whole fraction exponent hwhole hfraction hsome hexponent =>
      cases whole with
      | nil =>
        cases hc
        decide
      | cons d whole =>
        cases hc
        exact hdigit (hwhole c List.mem_cons_self)

/-- A decimal is a floating number of every format. -/
theorem IsDecimal.reads {decimal : List Char} (h : IsDecimal decimal) (format : Format) :
    ∃ number, Number.Binary.read format decimal = .ok number :=
  read_decimal format h.unsigned (h.elim readDecimal?_row readDecimal?_fractional)

/-- A number without a radix prefix is a decimal with a mark that goes with its kind. -/
theorem Numeral.decimal {kind : LiteralKind} {text : List Char} (h : Numeral kind text)
    (hkind : kind ≠ .hex) :
    ∃ decimal letters suffix? fractional octal, text = decimal ++ letters ∧ IsDecimal decimal
      ∧ Marks suffix? letters ∧ decimalKind? fractional octal suffix? = some kind := by
  cases h with
  | whole hdigits hletters hsuffix => exact ⟨_, _, _, _, _, rfl, .inl hdigits, hletters, hsuffix⟩
  | fractional hdecimal hletters hsuffix =>
    exact ⟨_, _, _, _, _, rfl, .inr hdecimal, hletters, hsuffix⟩
  | hex => exact absurd rfl hkind

/-- A float may have its suffix; the other numbers with a point have theirs. -/
theorem suffix_of_decimalKind? {fractional octal : Bool} {suffix? : Option Suffix}
    {kind : LiteralKind} (h : decimalKind? fractional octal suffix? = some kind) :
    (kind = .float → suffix? = none ∨ suffix? = some .float)
      ∧ (kind = .double → suffix? = some .double)
      ∧ (kind = .bigDecimal → suffix? = some .bigDecimal) := by
  cases suffix? with
  | none => cases fractional <;> cases octal <;> cases h <;> decide
  | some suffix => cases suffix <;> cases fractional <;> cases octal <;> cases h <;> decide

theorem Numeral.float_reads {text : List Char} (h : Numeral .float text) :
    ∃ number, readValue .float (String.ofList text) = .ok (.float number) := by
  obtain ⟨decimal, letters, suffix?, fractional, octal, rfl, hdecimal, hletters, hsuffix⟩ :=
    h.decimal (by decide)
  have hbare : dropMark ['f'] (decimal ++ letters) = decimal := by
    rcases (suffix_of_decimalKind? hsuffix).1 rfl with rfl | rfl
    · obtain rfl := marks_none hletters
      rw [List.append_nil]
      exact dropMark_unmarked hdecimal.not_float
    · exact dropMark_marked hletters
  obtain ⟨number, hnumber⟩ := hdecimal.reads .single
  exact ⟨number, by simp only [readValue, String.toList_ofList, hbare, hnumber]; rfl⟩

theorem Numeral.double_reads {text : List Char} (h : Numeral .double text) :
    ∃ number, readValue .double (String.ofList text) = .ok (.double number) := by
  obtain ⟨decimal, letters, suffix?, fractional, octal, rfl, hdecimal, hletters, hsuffix⟩ :=
    h.decimal (by decide)
  obtain rfl := (suffix_of_decimalKind? hsuffix).2.1 rfl
  have hbare : dropMark ['d'] (decimal ++ letters) = decimal := dropMark_marked hletters
  obtain ⟨number, hnumber⟩ := hdecimal.reads .double
  exact ⟨number, by simp only [readValue, String.toList_ofList, hbare, hnumber]; rfl⟩

/-- The faults of numbers are reported with the text. -/
theorem readValue_fault {kind : LiteralKind} (hkind : kind ∈ numberKinds) {text : String}
    {fault : LiteralFault} (h : readValue kind text = .error fault) :
    ∃ cause, fault.report = .numberFormat text cause := by
  have hwhole {outcome : Except Number.Whole.Problem Value}
      (h : outcome.mapError (.whole text) = .error fault) :
      ∃ cause, fault.report = .numberFormat text cause := by
    cases outcome <;> cases h
    exact ⟨_, rfl⟩
  have hbinary {outcome : Except Number.Binary.Problem Value}
      (h : outcome.mapError (.binary text) = .error fault) :
      ∃ cause, fault.report = .numberFormat text cause := by
    cases outcome <;> cases h
    exact ⟨_, rfl⟩
  have hscaled {outcome : Except Number.Scaled.Problem Value}
      (h : outcome.mapError (.scaled text) = .error fault) :
      ∃ cause, fault.report = .numberFormat text cause := by
    cases outcome <;> cases h
    exact ⟨_, rfl⟩
  cases kind with
  | integer | long | bigInteger | hex | octal => exact hwhole h
  | float | double => exact hbinary h
  | bigDecimal => exact hscaled h
  | string | character | true | false | null => exact absurd hkind (by decide)

theorem literal?_of_literalToken {text rest : List Char} {literal : Literal}
    (h : literalToken text = .ok literal rest) : literal? text = some (literal, rest) := by
  unfold literalToken at h
  split at h
  · cases h
    assumption
  · cases h

/-- The reading and the reported fault of a literal. -/
def interpreted (literal : Literal) : Except QueryError Resolved.Literal :=
  (ofPhrase literal).mapError LiteralFault.report

/-- The outcome is the literal with the value, or the report of a malformed number where there is
none. Both name the whole text. -/
def Meaning (text : String) (outcome : Except QueryError Resolved.Literal) : Option Value → Prop
  | some value => outcome = .ok ⟨value, text⟩
  | none => ∃ cause, outcome = .error (.numberFormat text cause)

theorem Yields.meaning {kind : LiteralKind} {text : String} {value? : Option Value}
    (h : Yields text (readValue kind text) value?) :
    Meaning text (interpreted ⟨kind, text⟩) value? := by
  cases value? with
  | none =>
    obtain ⟨problem, hread⟩ := h
    exact ⟨problem.text, by simp only [interpreted, ofPhrase, hread]; rfl⟩
  | some value =>
    have hread : readValue kind text = .ok value := h
    show interpreted ⟨kind, text⟩ = .ok ⟨value, text⟩
    simp only [interpreted, ofPhrase, hread]
    rfl

/-- A text that is a number means what its digits say. An integer and a long number have the value
of their digits if it fits, a big integer has it in any case; a number in the radix sixteen or eight
is long exactly with the mark, and a fault with a digit that its radix does not have; and a floating
number always has a value. A fault is reported with the text. -/
theorem number_means {text : String} {literal : Literal}
    (h : literalToken text.toList = .ok literal []) (hkind : literal.kind ∈ numberKinds) :
    (match literal.kind with
      | .integer => Meaning text (interpreted literal)
          (upTo? .integer (2 ^ 31 - 1) (valueIn 10 (decimalDigits text.toList)))
      | .long => Meaning text (interpreted literal)
          (upTo? .long (2 ^ 63 - 1) (valueIn 10 (decimalDigits text.toList)))
      | .bigInteger => interpreted literal
          = .ok ⟨.bigInteger (valueIn 10 (decimalDigits text.toList)), text⟩
      | .hex => Meaning text (interpreted literal) (markedValue? text.toList
          (valueIn 16 ((text.toList.drop 2).takeWhile isHexDigit)))
      | .octal => Meaning text (interpreted literal)
          (if '8' ∈ text.toList ∨ '9' ∈ text.toList then none
            else markedValue? text.toList (valueIn 8 (decimalDigits text.toList)))
      | .float => ∃ number, interpreted literal = .ok ⟨.float number, text⟩
      | .double => ∃ number, interpreted literal = .ok ⟨.double number, text⟩
      | _ => True)
      ∧ ∀ error, interpreted literal = .error error →
        ∃ cause, error = .numberFormat text cause := by
  obtain ⟨hnumeral, htext⟩ := numeral_of_literal? (literal?_of_literalToken h) hkind
  rw [String.ofList_toList] at htext
  obtain ⟨kind, written⟩ := literal
  obtain rfl : written = text := htext
  have hwhole (hkind : kind ∈ wholeKinds) :
      Meaning written (interpreted ⟨kind, written⟩) (wholeValue? written.toList kind) := by
    have hyields := hnumeral.yields hkind
    rw [String.ofList_toList] at hyields
    exact hyields.meaning
  constructor
  · cases kind with
    | integer | long | bigInteger | hex | octal => exact hwhole (by decide)
    | float =>
      obtain ⟨number, hread⟩ := hnumeral.float_reads
      rw [String.ofList_toList] at hread
      exact ⟨number, by simp only [interpreted, ofPhrase, hread]; rfl⟩
    | double =>
      obtain ⟨number, hread⟩ := hnumeral.double_reads
      rw [String.ofList_toList] at hread
      exact ⟨number, by simp only [interpreted, ofPhrase, hread]; rfl⟩
    | bigDecimal | string | character | true | false | null => trivial
  · intro error herror
    cases hread : readValue kind written with
    | ok value =>
      simp only [interpreted, ofPhrase, hread] at herror
      cases herror
    | error fault =>
      simp only [interpreted, ofPhrase, hread] at herror
      cases herror
      exact readValue_fault hkind hread

/-- The greatest long number in the radix sixteen is marked, though all its digits are letters. -/
theorem number_means_greatest_long :
    literalToken "0X7fffffffffffffffL".toList
        = .ok ⟨.hex, "0X7fffffffffffffffL"⟩ []
      ∧ interpreted ⟨.hex, "0X7fffffffffffffffL"⟩
        = .ok ⟨.long 9223372036854775807, "0X7fffffffffffffffL"⟩ := by
  have hread : literalToken "0X7fffffffffffffffL".toList
      = .ok ⟨.hex, "0X7fffffffffffffffL"⟩ [] := by rfl
  exact ⟨hread, (number_means hread (by decide)).1⟩

end EntityQuery.Grammar

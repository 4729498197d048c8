import EntityQuery.Proofs.NumberMeanings
import EntityQuery.Proofs.SpelledTokens

/-!
# Values written as literals

The text of a value is a literal again, and but for two shapes one of the same value. A string of a
single character stands between single quotes, where the character alone is read; and the single
quote as a character is not doubled, so that its text has no end.

The values that literals have are plain: they have no sign, and they fit the width of their type.
Reading stays within these values, and the text of each of them is read back.

* `Value.Plain`: the values that literals have; `readValue_plain`.
* `Value.literal`: the literal that a value is written as; `plain_reread`.
* `Value.Misread`: the two shapes that are not read back.
* `text_reread_iff`: which values of literals are read back from their text.
-/

namespace EntityQuery

namespace Grammar

/-! ## Digits that are written -/

/-- No zero that is not needed is written. -/
theorem needlessZero_toDigits (number : Nat) : needlessZero (Nat.toDigits 10 number) = false := by
  rcases Nat.eq_zero_or_pos number with rfl | hpositive
  · decide
  · simp [needlessZero, toDigits_head hpositive]

theorem valueIn_zeros (count : Nat) (digits : List Char) :
    valueIn 10 (List.replicate count '0' ++ digits) = valueIn 10 digits := by
  induction count with
  | zero => rfl
  | succ count ih =>
    have hzero : digitValue '0' = 0 := by decide
    rw [List.replicate_succ, List.cons_append, valueIn_cons, ih, hzero, Nat.zero_mul, Nat.zero_add]

end Grammar

open Grammar (digitValue valueIn Row Numeral Fractional Marks)

namespace Number.Scaled

/-! ## Scaled decimals that are read -/

/-- The number has no sign, and its mantissa and scale fit. -/
structure Plain (number : Scaled) : Prop where
  unsigned : number.negative = false
  fits : number.mantissa < mantissaLimit
  scaled : number.scale ≤ maxScale

/-- The number so far is plain, and before the point there is no scale. -/
structure Reading.Plain (reading : Reading) : Prop where
  unsigned : reading.negative = false
  fits : reading.mantissa < mantissaLimit
  scaled : reading.scale ≤ maxScale
  unpointed : reading.pointed = false → reading.scale = 0

theorem plain_ofParts {mantissa scale : Nat} (hfits : mantissa < mantissaLimit)
    (hscaled : scale ≤ maxScale) : (ofParts false mantissa scale).Plain :=
  ⟨rfl, hfits, hscaled⟩

theorem Reading.Plain.number {reading : Reading} (h : reading.Plain) : reading.number.Plain := by
  unfold Reading.number
  rw [h.unsigned]
  exact plain_ofParts h.fits h.scaled

/-- Rounding up reaches the limit at most once, and then a place is given up. -/
theorem roundLast_plain {mantissa scale digit : Nat} {number : Scaled}
    (hfits : mantissa < mantissaLimit) (hscaled : scale ≤ maxScale)
    (h : roundLast false mantissa scale digit = .ok number) : number.Plain := by
  unfold roundLast at h
  split at h
  · cases h
    exact plain_ofParts hfits hscaled
  · split at h
    · cases h
      exact plain_ofParts (by omega) hscaled
    · split at h
      · cases h
      · cases h
        exact plain_ofParts (by omega) (by omega)

theorem Reading.Plain.roundBy {reading : Reading} (h : reading.Plain) {digit : Nat}
    {rest : List Char} {number : Scaled} (hread : reading.roundBy digit rest = .ok number) :
    number.Plain := by
  unfold Reading.roundBy at hread
  cases hrest : checkRest rest with
  | error problem =>
    rw [hrest] at hread
    cases hread
  | ok =>
    rw [hrest, h.unsigned] at hread
    exact roundLast_plain h.fits h.scaled hread

/-- A further digit leaves the number plain if it fits in both ways. -/
theorem Reading.Plain.push {reading : Reading} (h : reading.Plain) {digit : Nat}
    (hincomplete : reading.isComplete = false)
    (hfits : reading.mantissa * 10 + digit < mantissaLimit) : (reading.push digit).Plain := by
  refine ⟨h.unsigned, hfits, ?_, ?_⟩
  · cases hpointed : reading.pointed with
    | false => simp [Reading.push, hpointed]
    | true =>
      simp only [Reading.isComplete, hpointed, Bool.true_and, decide_eq_false_iff_not]
        at hincomplete
      simp only [Reading.push, hpointed, if_true]
      omega
  · intro hpointed
    have hreading : reading.pointed = false := hpointed
    simp [Reading.push, hreading]

theorem readFrom_plain {reading : Reading} (h : reading.Plain) {text : List Char}
    {number : Scaled} (hread : readFrom reading text = .ok number) : number.Plain := by
  induction text generalizing reading with
  | nil =>
    unfold readFrom at hread
    split at hread
    · cases hread
      exact h.number
    · cases hread
  | cons c rest ih =>
    unfold readFrom at hread
    split at hread
    · rename_i digit hdigit
      split at hread
      · exact h.roundBy hread
      · rename_i hincomplete
        split at hread
        · rename_i hfits
          exact ih (h.push (Bool.eq_false_iff.mpr hincomplete) hfits) hread
        · split at hread
          · exact h.roundBy hread
          · cases hread
    · split at hread
      · exact ih h hread
      · split at hread
        · have hpointed : Reading.Plain { reading with pointed := true } :=
            ⟨h.unsigned, h.fits, h.scaled, fun hnot => by cases hnot⟩
          exact ih hpointed hread
        · cases hread

theorem readPlain_plain {text : List Char} (hsign : text.head? ≠ some '-') {number : Scaled}
    (h : readPlain text = .ok number) : number.Plain := by
  have hstart : Reading.Plain { negative := false } :=
    ⟨rfl, Nat.pow_pos (by decide), Nat.zero_le _, fun _ => rfl⟩
  unfold readPlain at h
  split at h
  · cases h
  · exact absurd rfl hsign
  · exact readFrom_plain hstart h
  · exact readFrom_plain hstart h

theorem Plain.withScale {number other : Scaled} (h : number.Plain) {scale : Nat}
    (hread : number.withScale scale = .ok other) : other.Plain := by
  unfold Scaled.withScale at hread
  split at hread
  · cases hread
    exact ⟨h.unsigned, h.fits, ‹_›⟩
  · cases hread

theorem Plain.lower {number other : Scaled} (h : number.Plain) {power : Nat}
    (hread : number.lower power = .ok other) : other.Plain := by
  unfold Scaled.lower at hread
  split at hread
  · cases hread
  · exact h.withScale hread

theorem Plain.raise {number other : Scaled} (h : number.Plain) {power : Nat}
    (hread : number.raise power = .ok other) : other.Plain := by
  unfold Scaled.raise at hread
  split at hread
  · exact h.withScale hread
  · split at hread
    · cases hread
    · simp only at hread
      split at hread
      · rename_i hfits
        cases hread
        rw [h.unsigned]
        exact plain_ofParts hfits (Nat.zero_le _)
      · cases hread

/-- Reading a text without a sign gives a plain number. -/
theorem read_plain {text : List Char} (hsign : text.head? ≠ some '-') {number : Scaled}
    (h : read text = .ok number) : number.Plain := by
  unfold read at h
  split at h
  · unfold readScientific at h
    have hfront : (splitExponent text).1.head? ≠ some '-' := by
      intro hhead
      cases text with
      | nil => cases hhead
      | cons c rest =>
        simp only [splitExponent, List.takeWhile_cons] at hhead
        split at hhead
        · exact hsign hhead
        · cases hhead
    cases hnumber : readPlain (splitExponent text).1 with
    | error problem =>
      simp only [hnumber, bind, Except.bind] at h
      cases h
    | ok front =>
      have hplain := readPlain_plain hfront hnumber
      simp only [hnumber, bind, Except.bind] at h
      split at h
      · split at h
        · cases h
        · exact hplain.lower h
      · split at h
        · cases h
        · exact hplain.raise h
  · exact readPlain_plain hsign h

/-! ## Scaled decimals that are written -/

/-- Digits are taken as long as the mantissa fits and, behind the point, the scale does. -/
theorem readFrom_row {digits : List Char} (hdigits : ∀ c ∈ digits, c.isDigit = true)
    (mantissa scale : Nat) (pointed started : Bool) (rest : List Char)
    (hunpointed : pointed = false → scale = 0)
    (hfits : mantissa * 10 ^ digits.length + valueIn 10 digits < mantissaLimit)
    (hscaled : pointed = true → scale + digits.length ≤ maxScale) :
    readFrom ⟨false, mantissa, scale, pointed, started⟩ (digits ++ rest) =
      readFrom ⟨false, mantissa * 10 ^ digits.length + valueIn 10 digits,
        scale + (if pointed then digits.length else 0), pointed, started || !digits.isEmpty⟩
        rest := by
  induction digits generalizing mantissa scale started with
  | nil => simp
  | cons c digits ih =>
    have hrest : ∀ d ∈ digits, d.isDigit = true :=
      fun d hd => hdigits d (List.mem_cons_of_mem c hd)
    have hvalue : mantissa * 10 ^ (c :: digits).length + valueIn 10 (c :: digits)
        = (mantissa * 10 + digitValue c) * 10 ^ digits.length + valueIn 10 digits := by
      rw [Grammar.valueIn_cons, List.length_cons, pow_succ]
      ring
    rw [hvalue] at hfits ⊢
    have hgrows : mantissa * 10 + digitValue c
        ≤ (mantissa * 10 + digitValue c) * 10 ^ digits.length :=
      Nat.le_mul_of_pos_right _ (Nat.pow_pos (by decide))
    have hincomplete : Reading.isComplete ⟨false, mantissa, scale, pointed, started⟩ = false := by
      cases pointed with
      | false => rfl
      | true =>
        have hroom := hscaled rfl
        rw [List.length_cons] at hroom
        simp only [Reading.isComplete, Bool.true_and, decide_eq_false_iff_not]
        omega
    have hstep : readFrom ⟨false, mantissa, scale, pointed, started⟩ (c :: (digits ++ rest))
        = readFrom (Reading.push ⟨false, mantissa, scale, pointed, started⟩ (digitValue c))
          (digits ++ rest) := by
      rw [readFrom, Grammar.digit?_ten (hdigits c List.mem_cons_self)]
      simp only [hincomplete, Bool.false_eq_true, if_false]
      exact if_pos (by omega)
    rw [List.cons_append, hstep]
    cases pointed with
    | false =>
      obtain rfl := hunpointed rfl
      rw [Reading.push]
      simpa using ih hrest _ 0 true (fun _ => rfl) hfits fun h => by cases h
    | true =>
      have hroom : scale + 1 + digits.length ≤ maxScale := by
        have hroom := hscaled rfl
        rw [List.length_cons] at hroom
        omega
      have hlength : scale + 1 + digits.length = scale + (digits.length + 1) := by omega
      rw [Reading.push]
      simpa [hlength] using ih hrest _ (scale + 1) true (fun h => by cases h) hfits fun _ => hroom

/-- The digits of the mantissa, at least one more of them than there are places. -/
def padded (number : Scaled) : List Char :=
  List.replicate (number.scale + 1 - (Nat.toDigits 10 number.mantissa).length) '0'
    ++ Nat.toDigits 10 number.mantissa

/-- The digits before the point. -/
def wholeDigits (number : Scaled) : List Char :=
  number.padded.take (number.padded.length - number.scale)

/-- The digits behind the point. -/
def places (number : Scaled) : List Char :=
  number.padded.drop (number.padded.length - number.scale)

/-- The text without a sign. -/
def written (number : Scaled) : List Char :=
  number.wholeDigits ++ if number.scale = 0 then [] else '.' :: number.places

theorem padded_split (number : Scaled) : number.wholeDigits ++ number.places = number.padded :=
  List.take_append_drop _ _

theorem isDigit_padded (number : Scaled) : ∀ c ∈ number.padded, c.isDigit = true := by
  intro c hc
  rcases List.mem_append.mp hc with hc | hc
  · rw [List.eq_of_mem_replicate hc]
    decide
  · exact (Grammar.row_toDigits _).all c hc

theorem length_padded (number : Scaled) : number.scale < number.padded.length := by
  simp only [padded, List.length_append, List.length_replicate]
  omega

theorem length_places (number : Scaled) : number.places.length = number.scale := by
  have hlength := number.length_padded
  simp only [places, List.length_drop]
  omega

theorem row_wholeDigits (number : Scaled) : Row Char.isDigit number.wholeDigits := by
  refine ⟨?_, fun c hc => number.isDigit_padded c (List.mem_of_mem_take hc)⟩
  intro hnil
  have hlength := number.length_padded
  have hempty := congrArg List.length hnil
  simp only [wholeDigits, List.length_take, List.length_nil] at hempty
  omega

theorem isDigit_places (number : Scaled) : ∀ c ∈ number.places, c.isDigit = true :=
  fun c hc => number.isDigit_padded c (List.mem_of_mem_drop hc)

theorem value_padded (number : Scaled) :
    valueIn 10 number.wholeDigits * 10 ^ number.places.length + valueIn 10 number.places
      = number.mantissa := by
  rw [← Grammar.valueIn_append, padded_split, padded, Grammar.valueIn_zeros,
    Grammar.valueIn_toDigits]

theorem Plain.text_eq {number : Scaled} (h : number.Plain) :
    number.text = String.ofList number.written := by
  simp only [Scaled.text, h.unsigned, Bool.false_eq_true, if_false]
  rfl

/-- A plain number is written as a decimal: digits, with a point if it has places. -/
theorem numeral_written (number : Scaled) {letters : List Char}
    (hletters : Marks (some .bigDecimal) letters) :
    Numeral .bigDecimal (number.written ++ letters) := by
  unfold written
  split
  · rw [List.append_nil]
    exact .whole number.row_wholeDigits hletters rfl
  · have hdecimal := Fractional.pointed number.row_wholeDigits.all number.isDigit_places
      (by simp [number.row_wholeDigits.ne_nil]) (.inl rfl)
    rw [List.append_nil] at hdecimal
    exact .fractional hdecimal hletters rfl

theorem mem_written {number : Scaled} {c : Char} (h : c ∈ number.written) :
    c.isDigit = true ∨ c = '.' := by
  unfold written at h
  rcases List.mem_append.mp h with h | h
  · exact .inl (number.row_wholeDigits.all c h)
  · split at h
    · cases h
    · rcases List.mem_cons.mp h with h | h
      · exact .inr h
      · exact .inl (number.isDigit_places c h)

/-- Without a sign the reading starts with the first digit. -/
theorem readPlain_written (number : Scaled) :
    readPlain number.written = readFrom ⟨false, 0, 0, false, false⟩ number.written := by
  have hrow := number.row_wholeDigits
  cases hform : number.wholeDigits with
  | nil => exact absurd hform hrow.ne_nil
  | cons c digits =>
    have hc : c.isDigit = true := hrow.all c (by simp [hform])
    obtain ⟨hminus, hplus⟩ := Grammar.ne_sign_of_isHexDigit (Grammar.isHexDigit_of_isDigit hc)
    simp [written, hform, readPlain, hminus, hplus]

theorem Plain.readFrom_whole {number : Scaled} (h : number.Plain) (rest : List Char) :
    readFrom ⟨false, 0, 0, false, false⟩ (number.wholeDigits ++ rest)
      = readFrom ⟨false, valueIn 10 number.wholeDigits, 0, false, true⟩ rest := by
  have hvalue := number.value_padded
  have hfits := h.fits
  have hgrows : valueIn 10 number.wholeDigits
      ≤ valueIn 10 number.wholeDigits * 10 ^ number.places.length :=
    Nat.le_mul_of_pos_right _ (Nat.pow_pos (by decide))
  have hread := readFrom_row number.row_wholeDigits.all 0 0 false false rest (fun _ => rfl)
    (by omega) fun hnot => by cases hnot
  simpa [number.row_wholeDigits.isEmpty] using hread

theorem Plain.readFrom_places {number : Scaled} (h : number.Plain) :
    readFrom ⟨false, valueIn 10 number.wholeDigits, 0, false, true⟩ ('.' :: number.places)
      = readFrom ⟨false, number.mantissa, number.scale, true, true⟩ [] := by
  have hpoint : digit? 10 '.' = none := by decide
  have hfits : valueIn 10 number.wholeDigits * 10 ^ number.places.length
      + valueIn 10 number.places < mantissaLimit := by
    rw [number.value_padded]
    exact h.fits
  have hscaled : 0 + number.places.length ≤ maxScale := by
    rw [length_places, Nat.zero_add]
    exact h.scaled
  have hread := readFrom_row number.isDigit_places _ 0 true true [] (fun hnot => by cases hnot)
    hfits fun _ => hscaled
  rw [List.append_nil, number.value_padded, length_places] at hread
  simpa [readFrom, hpoint] using hread

/-- What is written is read as the number, with all its places. -/
theorem Plain.read_written {number : Scaled} (h : number.Plain) :
    read number.written = .ok number := by
  have hunmarked : (number.written.any fun c => c = 'e' || c = 'E') = false := by
    rw [List.any_eq_false]
    intro c hc
    have hne : c ≠ 'e' ∧ c ≠ 'E' := by
      rcases mem_written hc with hdigit | rfl
      · have hbound := Grammar.toNat_of_isDigit hdigit
        constructor <;> rintro rfl <;> exact absurd hbound (by decide)
      · decide
    simp [hne.1, hne.2]
  have hnumber : ofParts false number.mantissa number.scale = number := by
    obtain ⟨negative, mantissa, scale⟩ := number
    obtain rfl : negative = false := h.unsigned
    rfl
  unfold read
  rw [hunmarked, if_neg (by decide), readPlain_written, written, h.readFrom_whole]
  by_cases hscale : number.scale = 0
  · have hvalue := number.value_padded
    have hplaces : number.places = [] := by
      rw [← List.length_eq_zero_iff, length_places, hscale]
    rw [hplaces] at hvalue
    have hmantissa : valueIn 10 number.wholeDigits = number.mantissa := by simpa using hvalue
    rw [hscale] at hnumber
    rw [if_pos hscale, hmantissa]
    exact congrArg Except.ok hnumber
  · rw [if_neg hscale, h.readFrom_places]
    exact congrArg Except.ok hnumber

end Number.Scaled

/-! ## Values -/

open Grammar
open Resolved.Literal
open Text (foldCase)

namespace Value

/-- The value has no sign and fits the width of its type. -/
def Plain : Value → Prop
  | integer value => ∃ number : Nat, value = number ∧ number ≤ 2 ^ 31 - 1
  | long value => ∃ number : Nat, value = number ∧ number ≤ 2 ^ 63 - 1
  | bigInteger value => ∃ number : Nat, value = number
  | bigDecimal value => value.Plain
  | _ => True

/-- The value is a floating number. -/
def isFloating : Value → Bool
  | float _ => true
  | double _ => true
  | _ => false

/-- The kind of literal that the value is written as. -/
def literalKind : Value → Phrase.LiteralKind
  | string _ => .string
  | character _ => .character
  | integer _ => .integer
  | long _ => .long
  | bigInteger _ => .bigInteger
  | float _ => .float
  | double _ => .double
  | bigDecimal _ => .bigDecimal
  | boolean true => .true
  | boolean false => .false
  | null => .null

/-- The literal that the value is written as. -/
def literal (value : Value) : Phrase.Literal :=
  ⟨value.literalKind, match value with
    | string content => content
    | character content => content.toString
    | _ => value.text⟩

/-- The value is written so that it is not read back: a string of a single character, which
between single quotes is a character, or a single quote that is not doubled. -/
def Misread : Value → Prop
  | string content => content.length = 1
  | character content => content = '\''
  | _ => False

end Value

/-! ## Values that are read -/

theorem upTo?_eq_some {make : Int → Value} {greatest number : Nat} {value : Value}
    (h : upTo? make greatest number = some value) : value = make number ∧ number ≤ greatest := by
  unfold upTo? at h
  split at h
  · cases h
    exact ⟨rfl, ‹_›⟩
  · cases h

theorem plain_of_markedValue? {text : List Char} {number : Nat} {value : Value}
    (h : markedValue? text number = some value) : value.Plain := by
  unfold markedValue? at h
  split at h
  · obtain ⟨rfl, hle⟩ := upTo?_eq_some h
    exact ⟨_, rfl, hle⟩
  · obtain ⟨rfl, hle⟩ := upTo?_eq_some h
    exact ⟨_, rfl, hle⟩

theorem plain_of_wholeValue? {text : List Char} {kind : Phrase.LiteralKind} {value : Value}
    (h : wholeValue? text kind = some value) : value.Plain := by
  cases kind with
  | integer =>
    obtain ⟨rfl, hle⟩ := upTo?_eq_some h
    exact ⟨_, rfl, hle⟩
  | long =>
    obtain ⟨rfl, hle⟩ := upTo?_eq_some h
    exact ⟨_, rfl, hle⟩
  | bigInteger =>
    cases h
    exact ⟨_, rfl⟩
  | hex => exact plain_of_markedValue? h
  | octal =>
    simp only [wholeValue?] at h
    split at h
    · cases h
    · exact plain_of_markedValue? h
  | float | double | bigDecimal | string | character | true | false | null => cases h

/-- A literal of the kind of a number that some text is read as is a number itself. -/
theorem numeral_of_isRead {literal : Phrase.Literal} (h : literal.IsRead)
    (hkind : literal.kind ∈ numberKinds) : Numeral literal.kind literal.text.toList := by
  have hend : Apart [] := fun c hc => by cases hc
  have hread := literalToken_spelled (literalForm_of_isRead h) hend
  rw [List.append_nil] at hread
  obtain ⟨hnumeral, htext⟩ := numeral_of_literal? (literal?_of_literalToken hread) hkind
  rw [htext, String.toList_ofList]
  exact hnumeral

theorem Grammar.Numeral.scaled_plain {text : String} (h : Numeral .bigDecimal text.toList)
    {number : Number.Scaled}
    (hread : Number.Scaled.read (dropMark ['b', 'd'] text.toList) = .ok number) :
    number.Plain := by
  obtain ⟨decimal, letters, suffix?, fractional, octal, htext, hdecimal, hletters, hsuffix⟩ :=
    h.decimal (by decide)
  obtain rfl := (suffix_of_decimalKind? hsuffix).2.2 rfl
  have hmark : foldCase letters = ['b', 'd'] := hletters
  rw [htext, dropMark_marked hmark] at hread
  refine Number.Scaled.read_plain ?_ hread
  intro hhead
  exact (hdecimal.unsigned '-' hhead).1 rfl

/-- Every value of a literal that some text is read as is plain. -/
theorem readValue_plain {literal : Phrase.Literal} (h : literal.IsRead) {value : Value}
    (hread : readValue literal.kind literal.text = .ok value) : value.Plain := by
  obtain ⟨kind, text⟩ := literal
  have hwhole (hkind : kind ∈ wholeKinds) : value.Plain := by
    have hnumbers : ∀ kind ∈ wholeKinds, kind ∈ numberKinds := by decide
    have hyields := (numeral_of_isRead h (hnumbers kind hkind)).yields hkind
    rw [String.ofList_toList, hread] at hyields
    cases hvalue : wholeValue? text.toList kind with
    | none =>
      rw [hvalue] at hyields
      obtain ⟨problem, hproblem⟩ := hyields
      cases hproblem
    | some found =>
      rw [hvalue] at hyields
      cases hyields
      exact plain_of_wholeValue? hvalue
  cases kind with
  | integer | long | bigInteger | hex | octal => exact hwhole (by decide)
  | bigDecimal =>
    have hkind : Phrase.LiteralKind.bigDecimal ∈ numberKinds := by decide
    have hnumeral := numeral_of_isRead h hkind
    simp only [readValue] at hread
    cases hscaled : Number.Scaled.read (dropMark ['b', 'd'] text.toList) with
    | error problem =>
      rw [hscaled] at hread
      cases hread
    | ok number =>
      rw [hscaled] at hread
      cases hread
      exact hnumeral.scaled_plain hscaled
  | float =>
    simp only [readValue] at hread
    cases hbinary : Number.Binary.read .single (dropMark ['f'] text.toList) <;>
      rw [hbinary] at hread <;> cases hread
    trivial
  | double =>
    simp only [readValue] at hread
    cases hbinary : Number.Binary.read .double (dropMark ['d'] text.toList) <;>
      rw [hbinary] at hread <;> cases hread
    trivial
  | string | true | false | null =>
    cases hread
    trivial
  | character =>
    simp only [readValue] at hread
    split at hread
    · cases hread
      trivial
    · cases hread

/-! ## Values that are read back -/

theorem literalToken_of_numeral {kind : Phrase.LiteralKind} {text : List Char}
    (h : Numeral kind text) : literalToken text = .ok ⟨kind, String.ofList text⟩ [] := by
  have hform := numberForm_iff.mpr h
  have hread : numericLiteral? text = some (⟨kind, String.ofList text⟩, []) :=
    numericLiteral?_whole_iff.mpr ⟨hform, rfl⟩
  obtain ⟨c, others, rfl, hc⟩ := hform.head
  apply literalToken_of_some
  rw [literal?_numeric hc]
  exact hread

/-- The literal that the value is written as is read from its text, and has the value. -/
structure Value.Reread (value : Value) : Prop where
  token : literalToken value.text.toList = .ok value.literal []
  read : readValue value.literal.kind value.literal.text = .ok value

/-- A number without a point is read back from its digits and its mark. -/
theorem reread_whole {value : Value} (number : Nat) (letters : List Char)
    (suffix? : Option Suffix) (hkind : value.literalKind ∈ wholeKinds)
    (hliteral : value.literal = ⟨value.literalKind, value.text⟩)
    (htext : value.text.toList = Nat.toDigits 10 number ++ letters)
    (hletters : Marks suffix? letters)
    (hsuffix : decimalKind? false false suffix? = some value.literalKind)
    (hvalue : decimalDigits value.text.toList = Nat.toDigits 10 number →
      wholeValue? value.text.toList value.literalKind = some value) : value.Reread := by
  have hrow := row_toDigits number
  have hnumeral : Numeral value.literalKind value.text.toList := by
    rw [htext]
    refine .whole hrow hletters ?_
    rw [needlessZero_toDigits]
    exact hsuffix
  have hdigits : decimalDigits value.text.toList = Nat.toDigits 10 number := by
    rw [htext]
    exact (takeWhile_front hrow.all hletters.not_digit).1
  have hyields := hnumeral.yields hkind
  rw [hvalue hdigits, String.ofList_toList] at hyields
  have htoken := literalToken_of_numeral hnumeral
  rw [String.ofList_toList] at htoken
  constructor
  · rw [hliteral]
    exact htoken
  · rw [hliteral]
    exact hyields

/-- A text between single quotes is read as a character or a string by its length. -/
theorem literalToken_singleQuoted (content : String) :
    literalToken (Phrase.quoted singleQuote content).toList
      = .ok ⟨quotedKind singleQuote content.toList, content⟩ [] := by
  have hend : ([] : List Char).head? ≠ some singleQuote := by simp
  have hread := quoted?_doubled hend content.toList
  apply literalToken_of_some
  rw [quoted_toList, literal?, if_pos (by decide), quotedLiteral?, hread]
  simp

theorem doubleQuotes_eq (content : List Char) :
    Value.doubleQuotes content = doubled singleQuote content := by
  have hquote : '\'' = singleQuote := rfl
  unfold Value.doubleQuotes doubled
  congr 1
  funext c
  rw [hquote]
  by_cases hc : c = singleQuote
  · simp [hc]
  · simp [hc]

theorem text_string (content : String) :
    (Value.string content).text = Phrase.quoted singleQuote content := by
  apply String.toList_injective
  rw [quoted_toList, ← doubleQuotes_eq]
  simp [Value.text]
  rfl

theorem text_character {c : Char} (h : c ≠ singleQuote) :
    (Value.character c).text = Phrase.quoted singleQuote c.toString := by
  apply String.toList_injective
  rw [quoted_toList]
  simp [Value.text, doubled, h]
  rfl

/-- A plain value that is not misread is read back from its text. -/
theorem plain_reread {value : Value} (hplain : value.Plain) (hexact : value.isFloating = false)
    (hclear : ¬value.Misread) : value.Reread := by
  cases value with
  | integer value =>
    obtain ⟨number, rfl, hle⟩ := hplain
    refine reread_whole number [] none
      (List.mem_cons_self) rfl ?_ rfl rfl ?_
    · rw [List.append_nil]
      exact Nat.toList_repr
    · intro hdigits
      simp only [Value.literalKind, wholeValue?, hdigits, valueIn_toDigits, upTo?, if_pos hle]
  | long value =>
    obtain ⟨number, rfl, hle⟩ := hplain
    refine reread_whole number ['L'] (some .long)
      (by simp [Value.literalKind, wholeKinds]) rfl ?_ rfl rfl ?_
    · rw [Value.text, String.toList_append]
      exact congrArg (· ++ ['L']) Nat.toList_repr
    · intro hdigits
      simp only [Value.literalKind, wholeValue?, hdigits, valueIn_toDigits, upTo?, if_pos hle]
  | bigInteger value =>
    obtain ⟨number, rfl⟩ := hplain
    refine reread_whole number ['B', 'I'] (some .bigInteger)
      (by simp [Value.literalKind, wholeKinds]) rfl ?_ rfl rfl ?_
    · rw [Value.text, String.toList_append]
      exact congrArg (· ++ ['B', 'I']) Nat.toList_repr
    · intro hdigits
      simp only [Value.literalKind, wholeValue?, hdigits, valueIn_toDigits]
  | bigDecimal number =>
    have hscaled : number.Plain := hplain
    have hmarks : Marks (some .bigDecimal) ['B', 'D'] := rfl
    have htext : (Value.bigDecimal number).text.toList = number.written ++ ['B', 'D'] := by
      rw [Value.text, hscaled.text_eq, String.toList_append, String.toList_ofList]
      rfl
    have hbare : dropMark ['b', 'd'] (number.written ++ ['B', 'D']) = number.written :=
      dropMark_marked rfl
    have htoken := literalToken_of_numeral (number.numeral_written hmarks)
    rw [← htext, String.ofList_toList] at htoken
    refine ⟨htoken, ?_⟩
    show readValue .bigDecimal (Value.bigDecimal number).text = _
    rw [readValue, htext, hbare, hscaled.read_written]
    rfl
  | string content =>
    have hkind : quotedKind singleQuote content.toList = .string := by
      have hlength : ¬content.toList.length = 1 := by
        rw [String.length_toList]
        exact hclear
      simp [quotedKind, hlength]
    have htoken := literalToken_singleQuoted content
    rw [hkind, ← text_string] at htoken
    exact ⟨htoken, rfl⟩
  | character c =>
    have hkind : quotedKind singleQuote c.toString.toList = .character := by simp [quotedKind]
    have htoken := literalToken_singleQuoted c.toString
    rw [hkind, ← text_character hclear] at htoken
    refine ⟨htoken, ?_⟩
    simp [Value.literal, Value.literalKind, readValue]
  | boolean value =>
    cases value with
    | true => exact ⟨rfl, rfl⟩
    | false => exact ⟨rfl, rfl⟩
  | null => exact ⟨rfl, rfl⟩
  | float | double => cases hexact

/-! ## Values that are not read back -/

/-- The value of the text of a value is another one, or its text is no literal to its end. -/
theorem misread_not_reread {value : Value} (h : value.Misread) {again : Phrase.Literal}
    {reread : Resolved.Literal} (htoken : literalToken value.text.toList = .ok again [])
    (hread : Resolved.Literal.ofPhrase again = .ok reread) : reread.value ≠ value := by
  cases value with
  | string content =>
    have hlength : content.toList.length = 1 := by
      rw [String.length_toList]
      exact h
    have hkind : quotedKind singleQuote content.toList = .character := by
      simp [quotedKind, hlength]
    rw [text_string, literalToken_singleQuoted, hkind] at htoken
    cases htoken
    obtain ⟨c, hc⟩ := List.length_eq_one_iff.mp hlength
    intro hvalue
    simp only [ofPhrase, readValue, hc] at hread
    cases hread
    cases hvalue
  | character c =>
    obtain rfl : c = '\'' := h
    have hnone : literalToken (Value.character '\'').text.toList = .fail ['\'', '\'', '\''] := by
      rfl
    rw [hnone] at htoken
    cases htoken
  | integer | long | bigInteger | float | double | bigDecimal | boolean | null => exact h.elim

/-- The text of the value of a literal, floating numbers aside, is a literal of the same value
exactly if the value is neither a string of a single character nor the single quote as a
character. -/
theorem text_reread_iff {text rest : List Char} {literal : Phrase.Literal}
    {read : Resolved.Literal} (htext : literalToken text = .ok literal rest)
    (hread : ofPhrase literal = .ok read) (hexact : read.value.isFloating = false) :
    (∃ again reread, literalToken read.value.text.toList = .ok again []
        ∧ ofPhrase again = .ok reread ∧ reread.value = read.value)
      ↔ ¬read.value.Misread := by
  constructor
  · rintro ⟨again, reread, htoken, hagain, hvalue⟩ hmisread
    exact misread_not_reread hmisread htoken hagain hvalue
  · intro hclear
    have hvalue : readValue literal.kind literal.text = .ok read.value := by
      unfold ofPhrase at hread
      cases hvalue : readValue literal.kind literal.text with
      | error fault =>
        rw [hvalue] at hread
        cases hread
      | ok value =>
        rw [hvalue] at hread
        cases hread
        rfl
    have hplain := readValue_plain ⟨text, rest, htext⟩ hvalue
    have hagain := plain_reread hplain hexact hclear
    refine ⟨read.value.literal, ⟨read.value, read.value.literal.text⟩, hagain.token, ?_, rfl⟩
    unfold ofPhrase
    rw [hagain.read]
    rfl

/-- A scaled decimal is read back from its text, and the single quote as a character is not. -/
theorem text_reread_decimal_quote :
    (∃ again reread, literalToken (Value.bigDecimal ⟨false, 150, 2⟩).text.toList = .ok again []
        ∧ ofPhrase again = .ok reread ∧ reread.value = .bigDecimal ⟨false, 150, 2⟩)
      ∧ ¬∃ again reread, literalToken (Value.character '\'').text.toList = .ok again []
        ∧ ofPhrase again = .ok reread ∧ reread.value = .character '\'' := by
  have hdecimal : literalToken "01.50bd".toList = .ok ⟨.bigDecimal, "01.50bd"⟩ [] := by rfl
  have hquote : literalToken ['\'', '\'', '\'', '\''] = .ok ⟨.character, "'"⟩ [] := by rfl
  have hdecimalValue : ofPhrase ⟨.bigDecimal, "01.50bd"⟩
      = .ok ⟨.bigDecimal ⟨false, 150, 2⟩, "01.50bd"⟩ := by rfl
  have hquoteValue : ofPhrase ⟨.character, "'"⟩ = .ok ⟨.character '\'', "'"⟩ := by rfl
  exact ⟨(text_reread_iff hdecimal hdecimalValue rfl).mpr id,
    fun hread => (text_reread_iff hquote hquoteValue rfl).mp hread rfl⟩

end EntityQuery

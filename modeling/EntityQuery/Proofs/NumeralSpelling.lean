import EntityQuery.Proofs.LeadingTokens

/-!
# The parts of a number

A decimal number is read part by part: digits, a point and digits, an exponent, a suffix. What each
step reads is said here for the step alone.

* `BeginsNumber`: the characters that a number begins with.
* `takeSuffix?_front`: a suffix is found whatever stands behind it.
* `suffixEnd`, `numeralEnd`: what follows the digits of a number.
* `decimalNumeral?_pointed`, `decimalNumeral?_plain`, `hexNumeral?_digits`: what follows a row of
  digits.
* `numeral?_plain`, `numeral?_prefixed`: a radix prefix decides how a number is read.
-/

namespace EntityQuery.Grammar

open EntityQuery.Text
open EntityQuery.Phrase (LiteralKind)

theorem Apart.not_head {rest : List Char} (h : Apart rest) {test : Char → Bool}
    (htest : test ' ' = false) : ∀ c ∈ rest.head?, test c = false := by
  intro c hc
  rw [h c hc]
  exact htest

theorem toNat_of_isDigit {c : Char} (h : c.isDigit = true) : 48 ≤ c.toNat ∧ c.toNat ≤ 57 := by
  simp only [Char.isDigit, Bool.and_eq_true, decide_eq_true_eq, ge_iff_le,
    UInt32.le_iff_toNat_le] at h
  exact h

theorem isDigit_of_isAlpha {c : Char} (h : c.isAlpha = true) : c.isDigit = false := by
  have hletter := le_toNat_of_isAlpha h
  cases hdigit : c.isDigit with
  | false => rfl
  | true =>
    have hbound := toNat_of_isDigit hdigit
    omega

/-- A number may begin with the character. -/
def BeginsNumber (c : Char) : Prop := c.isDigit = true ∨ c = '.'

theorem BeginsNumber.toNat {c : Char} (h : BeginsNumber c) : 46 ≤ c.toNat ∧ c.toNat ≤ 57 := by
  rcases h with h | rfl
  · have hbound := toNat_of_isDigit h
    omega
  · decide

theorem BeginsNumber.isBlank {c : Char} (h : BeginsNumber c) : isBlank c = false := by
  have hbound := h.toNat
  have hascii : c.toNat < 128 := by omega
  have hspace : c.toNat ≠ 32 := by omega
  have hcontrol : ¬c.toNat ≤ 13 := by omega
  simp [Text.isBlank, hascii, hspace, hcontrol]

theorem BeginsNumber.isWordStart {c : Char} (h : BeginsNumber c) : isWordStart c = false := by
  have hbound := h.toNat
  have hascii : c.toNat < 128 := by omega
  have halpha : c.isAlpha = false := by
    cases halpha : c.isAlpha with
    | false => rfl
    | true =>
      have hletter := le_toNat_of_isAlpha halpha
      omega
  have hline : c ≠ '_' := by
    rintro rfl
    exact absurd hbound (by decide)
  have hdollar : c ≠ '$' := by
    rintro rfl
    exact absurd hbound (by decide)
  simp [Grammar.isWordStart, isLetter_ascii hascii, halpha, hline, hdollar]

theorem BeginsNumber.ne_quote {c : Char} (h : BeginsNumber c) :
    c ≠ singleQuote ∧ c ≠ doubleQuote := by
  have hbound := h.toNat
  constructor
  · rintro rfl
    exact absurd hbound (by decide)
  · rintro rfl
    exact absurd hbound (by decide)

/-! ## Suffixes -/

/-- A suffix is found whatever stands behind it: those that are tried before it differ from it in
one of their letters. -/
theorem takeSuffix?_front {front : List Char} {suffix : Suffix}
    (hfront : foldCase front = suffix.letters) (rest : List Char) :
    takeSuffix? (front ++ rest) = some (suffix, rest) := by
  cases suffix with
  | bigInteger =>
    obtain ⟨c, tail, rfl, hc, htail⟩ := List.map_eq_cons_iff.mp hfront
    obtain ⟨d, tail, rfl, hd, htail⟩ := List.map_eq_cons_iff.mp htail
    rw [List.map_eq_nil_iff.mp htail]
    simp [takeSuffix?, Suffix.all, Suffix.letters, dropWord?, hc, hd]
  | bigDecimal =>
    obtain ⟨c, tail, rfl, hc, htail⟩ := List.map_eq_cons_iff.mp hfront
    obtain ⟨d, tail, rfl, hd, htail⟩ := List.map_eq_cons_iff.mp htail
    rw [List.map_eq_nil_iff.mp htail]
    simp [takeSuffix?, Suffix.all, Suffix.letters, dropWord?, hc, hd]
  | long | float | double =>
    obtain ⟨c, tail, rfl, hc, htail⟩ := List.map_eq_cons_iff.mp hfront
    rw [List.map_eq_nil_iff.mp htail]
    simp [takeSuffix?, Suffix.all, Suffix.letters, dropWord?, hc]

theorem takeSuffix?_some {text after : List Char} {suffix : Suffix}
    (h : takeSuffix? text = some (suffix, after)) :
    ∃ front, text = front ++ after ∧ foldCase front = suffix.letters := by
  obtain ⟨found, -, hfound⟩ := List.exists_of_findSome?_eq_some h
  obtain ⟨rest, hrest, heq⟩ := Option.map_eq_some_iff.mp hfound
  cases heq
  exact dropWord?_eq_some hrest

/-- A suffix begins with a letter. -/
theorem suffix_head {front : List Char} {suffix : Suffix}
    (hfront : foldCase front = suffix.letters) :
    ∃ c letters, front = c :: letters ∧ c.isAlpha = true := by
  have hletters : ∃ first others, suffix.letters = first :: others ∧ first.isLower = true := by
    cases suffix <;> exact ⟨_, _, rfl, by decide⟩
  obtain ⟨first, others, hsuffix, hlower⟩ := hletters
  rw [hsuffix] at hfront
  obtain ⟨c, letters, rfl, hc, -⟩ := List.map_eq_cons_iff.mp hfront
  rw [← hc] at hlower
  exact ⟨c, letters, rfl, isAlpha_of_toLower hlower⟩

/-! ## Exponents -/

/-- The text after the sign of an exponent. -/
def afterSign : List Char → List Char
  | '+' :: digits => digits
  | '-' :: digits => digits
  | digits => digits

theorem dropExponent?_cons (c : Char) (rest : List Char) :
    dropExponent? (c :: rest) =
      if c = 'e' ∨ c = 'E' then
        if (afterSign rest).head?.any Char.isDigit then
          some ((afterSign rest).dropWhile Char.isDigit)
        else none
      else none := by
  simp only [dropExponent?, Bool.or_eq_true, decide_eq_true_eq]
  rfl

/-! ## Decimal numbers -/

/-- What follows the digits, the point and the exponent of a decimal number, with the kind that it
decides. -/
def suffixEnd (fractional octal : Bool) (text : List Char) : Option (LiteralKind × List Char) :=
  match takeSuffix? text with
  | some (suffix, rest) =>
    (decimalKind? fractional octal (some suffix)).map fun kind => (kind, rest)
  | none => (decimalKind? fractional octal none).map fun kind => (kind, text)

/-- What follows the digits of a decimal number and its point, with the kind that it decides. -/
def numeralEnd (pointed : Bool) (whole text : List Char) : Option (LiteralKind × List Char) :=
  match dropExponent? text with
  | some rest => suffixEnd true false rest
  | none =>
    suffixEnd pointed (!pointed && (decide (1 < whole.length) && whole.head? = some '0')) text

/-- The digits before a point decide with what follows the digits behind it. -/
theorem decimalNumeral?_eq (text : List Char) :
    decimalNumeral? text =
      if (text.dropWhile Char.isDigit).head? = some '.' then
        let behind := (text.dropWhile Char.isDigit).drop 1
        if (text.takeWhile Char.isDigit).isEmpty && (behind.takeWhile Char.isDigit).isEmpty then
          none
        else numeralEnd true (text.takeWhile Char.isDigit) (behind.dropWhile Char.isDigit)
      else if (text.takeWhile Char.isDigit).isEmpty then none
      else numeralEnd false (text.takeWhile Char.isDigit) (text.dropWhile Char.isDigit) := by
  unfold decimalNumeral? numeralEnd suffixEnd
  by_cases hpoint : (text.dropWhile Char.isDigit).head? = some '.'
  · simp only [hpoint, decide_true, if_true]
    cases dropExponent? (((text.dropWhile Char.isDigit).drop 1).dropWhile Char.isDigit) <;> rfl
  · simp only [hpoint, decide_false, if_false, List.isEmpty_nil, Bool.and_true]
    cases dropExponent? (text.dropWhile Char.isDigit) <;> rfl

theorem decimalNumeral?_pointed {whole fraction text : List Char}
    (hwhole : ∀ c ∈ whole, c.isDigit = true) (hfraction : ∀ c ∈ fraction, c.isDigit = true)
    (htext : ∀ c ∈ text.head?, c.isDigit = false) :
    decimalNumeral? (whole ++ '.' :: (fraction ++ text)) =
      if whole.isEmpty && fraction.isEmpty then none else numeralEnd true whole text := by
  have hpoint : ∀ c ∈ ('.' :: (fraction ++ text)).head?, c.isDigit = false := by
    intro c hc
    cases hc
    decide
  obtain ⟨htake, hdrop⟩ := takeWhile_front hwhole hpoint
  obtain ⟨htakeFraction, hdropFraction⟩ := takeWhile_front hfraction htext
  rw [decimalNumeral?_eq, htake, hdrop, if_pos List.head?_cons]
  simp only [List.drop_one, List.tail_cons, htakeFraction, hdropFraction]

theorem decimalNumeral?_plain {whole text : List Char}
    (hwhole : ∀ c ∈ whole, c.isDigit = true)
    (htext : ∀ c ∈ text.head?, c.isDigit = false ∧ c ≠ '.') :
    decimalNumeral? (whole ++ text) =
      if whole.isEmpty then none else numeralEnd false whole text := by
  obtain ⟨htake, hdrop⟩ := takeWhile_front hwhole fun c hc => (htext c hc).1
  have hpoint : text.head? ≠ some '.' := fun h => (htext '.' h).2 rfl
  rw [decimalNumeral?_eq, htake, hdrop, if_neg hpoint]

/-! ## Numbers with a radix prefix -/

theorem hexNumeral?_digits {digits behind : List Char} (hdigits : digits ≠ [])
    (hall : ∀ c ∈ digits, isHexDigit c = true)
    (hbehind : ∀ c ∈ behind.head?, isHexDigit c = false) :
    hexNumeral? (digits ++ behind) = some (.hex, (dropWord? ['l'] behind).getD behind) := by
  obtain ⟨-, hdrop⟩ := takeWhile_front hall hbehind
  cases digits with
  | nil => exact absurd rfl hdigits
  | cons c digits =>
    have hsome : (c :: digits ++ behind).head?.any isHexDigit = true := hall c (by simp)
    rw [hexNumeral?, if_pos hsome, hdrop]

/-! ## All numbers -/

/-- The text begins with a radix prefix. -/
def isPrefixed : List Char → Bool
  | c :: d :: _ => c = '0' && (d = 'x' || d = 'X')
  | _ => false

theorem numeral?_plain {text : List Char} (h : isPrefixed text = false) :
    numeral? text = decimalNumeral? text := by
  unfold numeral?
  split
  · cases h
  · cases h
  · rfl

theorem numeral?_prefixed {text : List Char} (h : isPrefixed text = true) :
    numeral? text = hexNumeral? (text.drop 2) := by
  match text with
  | [] => cases h
  | [_] => cases h
  | c :: d :: text =>
    simp only [isPrefixed, Bool.and_eq_true, Bool.or_eq_true, decide_eq_true_eq] at h
    obtain ⟨rfl, rfl | rfl⟩ := h
    · rfl
    · rfl

end EntityQuery.Grammar

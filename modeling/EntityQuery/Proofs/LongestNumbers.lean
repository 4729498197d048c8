import EntityQuery.Proofs.WrittenNumbers

/-!
# The longest number

A number is read as far as a number can go. Of all beginnings of a text that have the form of a
number the longest one is taken. A character of an identifier behind it makes the text no number at
all; no shorter beginning is tried.

The parts of a number are read one behind the other. Each is the longest of its form, and no part
holds a character that begins the next one, so that the parts together are the longest again
(`Longest.append`).

* `Longest`: the longest beginning of a text that has some form.
* `Stretched`: digits, a point and an exponent as they are read, each as far as it goes.
* `Munched`: what is read at the start of a text, or why nothing is; `numeral?_munched`.
* `numericLiteral?_front`, `numericLiteral?_append`: what stands behind a number may change.
* `numericLiteral?_longest`: where a numeric literal is read, and what it is.
-/

namespace EntityQuery.Grammar

open EntityQuery.Text
open EntityQuery.Phrase (Literal LiteralKind)

/-! ## Longest beginnings -/

/-- Of the beginnings of the text that have the form, the longest. -/
structure Longest (form : List Char → Prop) (text front : List Char) : Prop where
  begins : front <+: text
  formed : form front
  longest : ∀ other, other <+: text → form other → other.length ≤ front.length

section

variable {form first : List Char → Prop} {second : List Char → List Char → Prop}
variable {text front other rest : List Char}

theorem Longest.prefix_of (h : Longest form text front) (hother : other <+: text)
    (hform : form other) : other <+: front :=
  List.prefix_of_prefix_length_le hother h.begins (h.longest other hother hform)

theorem Longest.unique (h : Longest form text front) (hother : Longest form text other) :
    front = other :=
  (hother.prefix_of h.begins h.formed).eq_of_length_le
    (h.longest other hother.begins hother.formed)

/-- The longest beginning of a form is the longest of a narrower form that it has too. -/
theorem Longest.restrict {narrow : List Char → Prop} (h : Longest form text front)
    (hfront : narrow front) (hnarrow : ∀ other, other <+: text → narrow other → form other) :
    Longest narrow text front :=
  ⟨h.begins, hfront, fun other hbegins hother =>
    h.longest other hbegins (hnarrow other hbegins hother)⟩

/-- Where no text of the first form holds a character that begins one of the second, the longest
beginnings of both make the longest beginning of the two together. -/
theorem Longest.append (hfirst : Longest first (front ++ rest) front)
    (hsecond : Longest (second front) rest other)
    (happart : ∀ {short behind long}, second short behind → first long →
      ∀ c ∈ behind.head?, c ∉ long) :
    Longest (Followed first second) (front ++ rest) (front ++ other) := by
  refine ⟨(List.prefix_append_right_inj front).mpr hsecond.begins,
    ⟨front, other, rfl, hfirst.formed, hsecond.formed⟩, ?_⟩
  rintro _ hbegins ⟨short, behind, rfl, hshort, hbehind⟩
  obtain ⟨extra, rfl⟩ := hfirst.prefix_of ((List.prefix_append short behind).trans hbegins) hshort
  cases extra with
  | nil =>
    rw [List.append_nil] at hbegins hsecond ⊢
    have hlength := hsecond.longest behind ((List.prefix_append_right_inj short).mp hbegins) hbehind
    simp only [List.length_append]
    omega
  | cons c extra =>
    cases behind with
    | nil =>
      simp only [List.length_append, List.length_cons, List.length_nil]
      omega
    | cons d behind =>
      -- The second text would begin inside the longest text of the first form.
      rw [List.append_assoc, List.cons_append, List.prefix_append_right_inj] at hbegins
      obtain rfl : d = c := (List.cons_prefix_cons.mp hbegins).1
      exact absurd (by simp) (happart hbehind hfirst.formed d rfl)

/-- What follows does not matter if it begins with a character that no text of the form has. -/
theorem longest_append_iff (hrest : ∀ c ∈ rest.head?, ∀ part, form part → c ∉ part) :
    Longest form (text ++ rest) front ↔ Longest form text front := by
  have hwithin (other : List Char) (hform : form other) (hother : other <+: text ++ rest) :
      other <+: text :=
    prefix_front hother fun c hc => hrest c hc other hform
  constructor
  · intro h
    exact ⟨hwithin front h.formed h.begins, h.formed, fun other hother =>
      h.longest other (hother.trans (List.prefix_append text rest))⟩
  · intro h
    exact ⟨h.begins.trans (List.prefix_append text rest), h.formed, fun other hother hform =>
      h.longest other (hwithin other hform hother) hform⟩

theorem longest_self (h : form front) : Longest form front front :=
  ⟨List.prefix_rfl, h, fun _ hother _ => hother.length_le⟩

theorem longest_row {test : Char → Bool} {row : List Char} (hrow : ∀ c ∈ row, test c = true)
    (hrest : ∀ c ∈ rest.head?, test c = false) :
    Longest (fun part => ∀ c ∈ part, test c = true) (row ++ rest) row := by
  refine (longest_append_iff ?_).mpr (longest_self hrow)
  intro c hc part hpart hmem
  have hout := hrest c hc
  rw [hpart c hmem] at hout
  cases hout

end

/-! ## Exponents -/

/-- An exponent ends before the first character that is no digit. -/
theorem Exponent.dropExponent? {exponent rest : List Char} (h : Exponent exponent)
    (hrest : ∀ c ∈ rest.head?, c.isDigit = false) :
    dropExponent? (exponent ++ rest) = some rest := by
  obtain ⟨hmark, hsign, hdigits⟩ := h
  rename_i mark sign digits
  obtain ⟨-, hdrop⟩ := takeWhile_front hdigits.all hrest
  have hhead : (digits ++ rest).head?.any Char.isDigit = true := by
    cases digits with
    | nil => exact absurd rfl hdigits.ne_nil
    | cons c digits => exact hdigits.all c List.mem_cons_self
  have hsigned : afterSign (sign ++ (digits ++ rest)) = digits ++ rest := by
    rcases hsign with rfl | rfl | rfl
    · cases digits with
      | nil => exact absurd rfl hdigits.ne_nil
      | cons c digits =>
        have hc : c.isDigit = true := hdigits.all c List.mem_cons_self
        have hplus : c ≠ '+' := by rintro rfl; exact absurd hc (by decide)
        have hminus : c ≠ '-' := by rintro rfl; exact absurd hc (by decide)
        simp [afterSign, hplus, hminus]
    · rfl
    · rfl
  rw [List.cons_append, List.append_assoc, dropExponent?_cons, if_pos hmark, hsigned,
    if_pos hhead, hdrop]

theorem exponent_of_dropExponent? {text rest : List Char} (h : dropExponent? text = some rest) :
    ∃ exponent, text = exponent ++ rest ∧ Exponent exponent := by
  cases text with
  | nil => cases h
  | cons mark text =>
    rw [dropExponent?_cons] at h
    split at h
    · rename_i hmark
      split at h
      · rename_i hhead
        have hdigits := row_of_head hhead
        have hrest : (afterSign text).dropWhile Char.isDigit = rest := by simpa using h
        have hsplit : (afterSign text).takeWhile Char.isDigit ++ rest = afterSign text := by
          rw [← hrest, List.takeWhile_append_dropWhile]
        have hsign : ∃ sign, text = sign ++ afterSign text
            ∧ (sign = [] ∨ sign = ['+'] ∨ sign = ['-']) := by
          unfold afterSign
          split
          · exact ⟨['+'], rfl, by simp⟩
          · exact ⟨['-'], rfl, by simp⟩
          · exact ⟨[], rfl, by simp⟩
        obtain ⟨sign, htext, hsign⟩ := hsign
        refine ⟨mark :: (sign ++ (afterSign text).takeWhile Char.isDigit), ?_,
          .mk hmark hsign hdigits⟩
        rw [List.cons_append, List.append_assoc, hsplit, ← htext]
      · cases h
    · cases h

theorem exists_raised (text : List Char) : ∃ exponent rest, text = exponent ++ rest
    ∧ Raised exponent
    ∧ dropExponent? (exponent ++ rest) = if exponent.isEmpty then none else some rest := by
  cases hdrop : dropExponent? text with
  | none => exact ⟨[], text, rfl, .inl rfl, hdrop⟩
  | some rest =>
    obtain ⟨exponent, rfl, hexponent⟩ := exponent_of_dropExponent? hdrop
    refine ⟨exponent, rest, rfl, .inr hexponent, ?_⟩
    rw [hdrop, hexponent.isEmpty, if_neg (by decide)]

/-- An exponent that the text begins with goes no further than the one that is read. -/
theorem Exponent.length_le {exponent text : List Char} (h : Exponent exponent)
    (hbegins : exponent <+: text) :
    ∃ rest, Grammar.dropExponent? text = some rest
      ∧ exponent.length + rest.length ≤ text.length := by
  obtain ⟨behind, rfl⟩ := hbegins
  obtain ⟨hmark, hsign, hdigits⟩ := h
  rename_i mark sign digits
  have hlonger : Exponent (mark :: (sign ++ (digits ++ behind.takeWhile Char.isDigit))) := by
    refine .mk hmark hsign ⟨by simp [hdigits.ne_nil], ?_⟩
    intro c hc
    rcases List.mem_append.mp hc with hc | hc
    · exact hdigits.all c hc
    · exact List.mem_takeWhile_imp hc
  have hends : ∀ c ∈ (behind.dropWhile Char.isDigit).head?, c.isDigit = false := not_head_dropWhile
  have hdrop := hlonger.dropExponent? hends
  have htext : mark :: (sign ++ (digits ++ behind.takeWhile Char.isDigit))
      ++ behind.dropWhile Char.isDigit = mark :: (sign ++ digits) ++ behind := by
    simp [List.append_assoc]
  rw [htext] at hdrop
  refine ⟨_, hdrop, ?_⟩
  have hlength := (List.dropWhile_suffix Char.isDigit (l := behind)).length_le
  rw [List.length_append]
  omega

/-! ## Figures -/

theorem longest_pointed {digits rest : List Char} (hdigits : Digits digits)
    (hrest : ∀ c ∈ rest.head?, c.isDigit = false) :
    Longest Pointed ('.' :: (digits ++ rest)) ('.' :: digits) := by
  have hrow := longest_row hdigits hrest
  refine ⟨List.prefix_append ('.' :: digits) rest, .inr ⟨digits, rfl, hdigits⟩, ?_⟩
  rintro other hbegins (rfl | ⟨places, rfl, hplaces⟩)
  · exact Nat.zero_le _
  · exact Nat.succ_le_succ (hrow.longest places (List.cons_prefix_cons.mp hbegins).2 hplaces)

theorem longest_unpointed {rest : List Char} (hrest : ∀ c ∈ rest.head?, c ≠ '.') :
    Longest Pointed rest [] := by
  refine ⟨List.nil_prefix, .inl rfl, ?_⟩
  rintro other hbegins (rfl | ⟨places, rfl, -⟩)
  · exact Nat.le_refl 0
  · obtain ⟨behind, rfl⟩ := hbegins
    exact absurd rfl (hrest '.' rfl)

/-- Digits, a point and an exponent, each of which goes as far as it can in front of the rest. -/
structure Stretched (whole point exponent rest : List Char) : Prop where
  digits : Digits whole
  pointed : Pointed point
  raised : Raised exponent
  behindPoint : ∀ c ∈ (exponent ++ rest).head?, c.isDigit = false ∧ (point = [] → c ≠ '.')
  behindExponent : dropExponent? (exponent ++ rest) = if exponent.isEmpty then none else some rest

/-- Every text begins with parts that go as far as they can, though they may all be empty. -/
theorem exists_stretched (text : List Char) : ∃ whole point exponent rest,
    text = whole ++ (point ++ (exponent ++ rest)) ∧ Stretched whole point exponent rest := by
  have hwhole : Digits (text.takeWhile Char.isDigit) := fun _ => List.mem_takeWhile_imp
  have hsplit : text.takeWhile Char.isDigit ++ text.dropWhile Char.isDigit = text :=
    List.takeWhile_append_dropWhile
  have hbehind := @not_head_dropWhile Char.isDigit text
  generalize text.takeWhile Char.isDigit = whole at hwhole hsplit
  generalize text.dropWhile Char.isDigit = behind at hsplit hbehind
  subst hsplit
  by_cases hpoint : behind.head? = some '.'
  · obtain ⟨fractional, rfl⟩ := List.head?_eq_some_iff.mp hpoint
    have hfraction : Digits (fractional.takeWhile Char.isDigit) := fun _ => List.mem_takeWhile_imp
    have hsplit : fractional.takeWhile Char.isDigit ++ fractional.dropWhile Char.isDigit
        = fractional :=
      List.takeWhile_append_dropWhile
    have hafter := @not_head_dropWhile Char.isDigit fractional
    generalize fractional.takeWhile Char.isDigit = fraction at hfraction hsplit
    generalize fractional.dropWhile Char.isDigit = last at hsplit hafter
    subst hsplit
    obtain ⟨exponent, rest, rfl, hexponent, hdrop⟩ := exists_raised last
    exact ⟨whole, '.' :: fraction, exponent, rest, rfl, hwhole, .inr ⟨fraction, rfl, hfraction⟩,
      hexponent, fun c hc => ⟨hafter c hc, nofun⟩, hdrop⟩
  · obtain ⟨exponent, rest, rfl, hexponent, hdrop⟩ := exists_raised behind
    refine ⟨whole, [], exponent, rest, rfl, hwhole, .inl rfl, hexponent, ?_, hdrop⟩
    intro c hc
    refine ⟨hbehind c hc, ?_⟩
    rintro - rfl
    exact hpoint hc

theorem suffixEnd_fractional (octal other : Bool) (text : List Char) :
    suffixEnd true octal text = suffixEnd true other text := by
  unfold suffixEnd
  simp only [decimalKind?_fractional octal other]

section

variable {whole point exponent rest : List Char} (h : Stretched whole point exponent rest)
include h

theorem Stretched.behindWhole :
    ∀ c ∈ (point ++ (exponent ++ rest)).head?, c.isDigit = false := by
  intro c hc
  rcases h.pointed with rfl | ⟨digits, rfl, -⟩
  · exact (h.behindPoint c hc).1
  · cases hc
    decide

/-- Behind parts that go as far as they can a suffix is read, if there is a digit in them. -/
theorem Stretched.read :
    decimalNumeral? (whole ++ (point ++ (exponent ++ rest)))
      = if (whole ++ point).any Char.isDigit then
          suffixEnd (!(point ++ exponent).isEmpty)
            (needlessZero (whole ++ (point ++ exponent))) rest
        else none := by
  have hsome {digits : List Char} (hdigits : Digits digits) :
      digits.any Char.isDigit = !digits.isEmpty := by
    cases digits with
    | nil => rfl
    | cons c digits => simp [hdigits c List.mem_cons_self]
  have hend : numeralEnd (!point.isEmpty) whole (exponent ++ rest)
      = suffixEnd (!(point ++ exponent).isEmpty) (needlessZero (whole ++ (point ++ exponent))) rest
      := by
    unfold numeralEnd
    rw [h.behindExponent]
    rcases h.raised with rfl | hexponent
    · cases point with
      | nil => simp [needlessZero]
      | cons c point => simpa using suffixEnd_fractional _ _ _
    · have hempty : (point ++ exponent).isEmpty = false := by
        cases point with
        | nil => exact hexponent.isEmpty
        | cons c point => rfl
      rw [hexponent.isEmpty, if_neg (by decide), hempty]
      exact suffixEnd_fractional _ _ _
  rw [List.any_append, hsome h.digits, ← hend]
  rcases h.pointed with rfl | ⟨fraction, rfl, hfraction⟩
  · rw [List.nil_append, decimalNumeral?_plain h.digits fun c hc =>
      ⟨(h.behindPoint c hc).1, (h.behindPoint c hc).2 rfl⟩]
    cases whole.isEmpty <;> rfl
  · have hpoint : ('.' : Char).isDigit = false := by decide
    rw [List.cons_append, decimalNumeral?_pointed h.digits hfraction fun c hc =>
      (h.behindPoint c hc).1, List.any_cons, hpoint, hsome hfraction]
    cases whole.isEmpty <;> cases fraction.isEmpty <;> rfl

theorem Stretched.longest_point : Longest Pointed (point ++ (exponent ++ rest)) point := by
  rcases h.pointed with rfl | ⟨digits, rfl, hdigits⟩
  · exact longest_unpointed fun c hc => (h.behindPoint c hc).2 rfl
  · exact longest_pointed hdigits fun c hc => (h.behindPoint c hc).1

theorem Stretched.longest_exponent : Longest Raised (exponent ++ rest) exponent := by
  refine ⟨List.prefix_append exponent rest, h.raised, ?_⟩
  rintro other hbegins (rfl | hother)
  · exact Nat.zero_le _
  · obtain ⟨behind, hdrop, hlength⟩ := hother.length_le hbegins
    rw [h.behindExponent] at hdrop
    split at hdrop
    · cases hdrop
    · cases hdrop
      rw [List.length_append] at hlength
      omega

theorem Stretched.longest_mantissa :
    Longest Mantissa (whole ++ point ++ (exponent ++ rest)) (whole ++ point) := by
  rw [List.append_assoc]
  refine (longest_row h.digits h.behindWhole).append h.longest_point ?_
  rintro - behind long (rfl | ⟨digits, rfl, -⟩) hlong c hc hmem
  · cases hc
  · cases hc
    exact absurd (hlong _ hmem) (by decide)

theorem Stretched.longest_parts :
    Longest (Followed Mantissa fun _ => Raised) (whole ++ point ++ (exponent ++ rest))
      (whole ++ point ++ exponent) := by
  refine h.longest_mantissa.append h.longest_exponent ?_
  rintro - behind long (rfl | hbehind) hlong c hc hmem
  · cases hc
  · have hmark := hbehind.head [] c (by rwa [List.append_nil])
    rcases hlong.mem c hmem with hdigit | hpoint
    · rw [hmark.1] at hdigit
      cases hdigit
    · exact hmark.2 hpoint

end

/-- The text has the form of a figure. -/
def IsFigure (text : List Char) : Prop := ∃ fractional, Figure fractional text

/-- What is read of a text behind its figure, where it has one: a suffix. -/
theorem decimalNumeral?_longest (text : List Char) :
    (decimalNumeral? text = none ∧ ∀ other, other <+: text → ¬IsFigure other)
    ∨ ∃ fractional figure rest, text = figure ++ rest ∧ Figure fractional figure
      ∧ Longest IsFigure text figure
      ∧ decimalNumeral? text = suffixEnd fractional (needlessZero figure) rest := by
  obtain ⟨whole, point, exponent, rest, rfl, hstretched⟩ := exists_stretched text
  have hread := hstretched.read
  have htext : whole ++ (point ++ (exponent ++ rest)) = whole ++ point ++ (exponent ++ rest) :=
    (List.append_assoc ..).symm
  cases hany : (whole ++ point).any Char.isDigit with
  | false =>
    rw [hany] at hread
    refine .inl ⟨hread, ?_⟩
    rintro other hbegins ⟨fractional, hfigure⟩
    -- The digit of a figure would stand in the mantissa.
    obtain ⟨front, behind, last, rfl, hfront, hbehind, -, hdigit, -⟩ := hfigure.parts
    obtain ⟨c, hc, hcDigit⟩ := List.any_eq_true.mp hdigit
    rw [htext, ← List.append_assoc] at hbegins
    have hpart := hstretched.longest_mantissa.prefix_of
      ((List.prefix_append (front ++ behind) last).trans hbegins)
      ⟨front, behind, rfl, hfront, hbehind⟩
    exact absurd hcDigit (List.any_eq_false.mp hany c (hpart.subset hc))
  | true =>
    rw [hany, if_pos rfl] at hread
    have hfigure := figure_of_parts hstretched.digits hstretched.pointed hstretched.raised hany
    have hlongest := hstretched.longest_parts
    rw [← htext, List.append_assoc] at hlongest
    refine .inr ⟨_, whole ++ (point ++ exponent), rest, by simp, hfigure, ?_, hread⟩
    exact hlongest.restrict ⟨_, hfigure⟩ fun other _ ⟨_, hother⟩ => hother.followed

/-! ## What is at the start of a text -/

/-- What is read at the start of a text is the longest beginning that has one of the forms. Nothing
is read where it would be followed by a character of an identifier, or where there is none. -/
inductive Munched (form : LiteralKind → List Char → Prop) (text : List Char) :
    Option (LiteralKind × List Char) → Prop
  | taken {kind : LiteralKind} {front rest : List Char} (htext : text = front ++ rest)
    (hform : form kind front) (hlongest : Longest (fun part => ∃ kind, form kind part) text front) :
    Munched form text (some (kind, rest))
  | held (front : List Char) {c : Char} {rest : List Char} (htext : text = front ++ c :: rest)
    (hlongest : Longest (fun part => ∃ kind, form kind part) text front)
    (hc : isWordPart c = true) : Munched form text none
  | missing (hnone : ∀ front, front <+: text → ∀ kind, ¬form kind front) : Munched form text none

theorem Munched.congr {form other : LiteralKind → List Char → Prop} {text : List Char}
    {read : Option (LiteralKind × List Char)} (h : Munched form text read)
    (hsame : ∀ front, front <+: text → ∀ kind, form kind front ↔ other kind front) :
    Munched other text read := by
  have hlongest {front : List Char}
      (hlongest : Longest (fun part => ∃ kind, form kind part) text front) :
      Longest (fun part => ∃ kind, other kind part) text front :=
    hlongest.restrict (hlongest.formed.imp fun kind => (hsame front hlongest.begins kind).mp)
      fun part hbegins => Exists.imp fun kind => (hsame part hbegins kind).mpr
  cases h with
  | taken htext hform hfront =>
    exact .taken htext ((hsame _ hfront.begins _).mp hform) (hlongest hfront)
  | held front htext hfront hc => exact .held front htext (hlongest hfront) hc
  | missing hnone =>
    exact .missing fun front hbegins kind hform =>
      hnone front hbegins kind ((hsame front hbegins kind).mpr hform)

/-! ## Suffixes -/

/-- A suffix that is there is the one that is read. -/
theorem Suffixed.takeSuffix? {fractional needless : Bool} {kind : LiteralKind}
    {letters text : List Char} (h : Suffixed fractional needless kind letters)
    (hbegins : letters <+: text) :
    letters = [] ∨ ∃ suffix rest, text = letters ++ rest
      ∧ Grammar.takeSuffix? text = some (suffix, rest)
      ∧ decimalKind? fractional needless (some suffix) = some kind := by
  obtain ⟨suffix?, hletters, hkind⟩ := suffixed_iff.mp h
  cases suffix? with
  | none => exact .inl (marks_none hletters)
  | some suffix =>
    obtain ⟨rest, rfl⟩ := hbegins
    exact .inr ⟨suffix, rest, rfl, takeSuffix?_front hletters rest, hkind⟩

/-- Where no suffix is read that suits the figure, none stands there. -/
theorem longest_unsuffixed {fractional needless : Bool} {text : List Char}
    (h : ∀ suffix rest, Grammar.takeSuffix? text = some (suffix, rest) →
      decimalKind? fractional needless (some suffix) = none) :
    Longest (fun part => ∃ kind, Suffixed fractional needless kind part) text [] := by
  refine ⟨List.nil_prefix, suffixed_nil fractional needless, ?_⟩
  rintro other hbegins ⟨kind, hother⟩
  rcases hother.takeSuffix? hbegins with rfl | ⟨suffix, rest, -, hread, hkind⟩
  · exact Nat.le_refl 0
  · rw [h suffix rest hread] at hkind
    cases hkind

/-- The suffix behind a figure is the longest one that suits it. One that does not suit it is not
passed over: its letters are characters of an identifier. -/
theorem suffixEnd_munched (fractional needless : Bool) (text : List Char) :
    Munched (Suffixed fractional needless) text (suffixEnd fractional needless text) := by
  unfold suffixEnd
  cases hsuffix : Grammar.takeSuffix? text with
  | none =>
    obtain ⟨kind, hempty⟩ := suffixed_nil fractional needless
    have hkind : decimalKind? fractional needless none = some kind := kindBehind_iff.mp hempty
    simp only [hkind, Option.map_some]
    refine .taken rfl hempty (longest_unsuffixed ?_)
    simp [hsuffix]
  | some read =>
    obtain ⟨suffix, rest⟩ := read
    obtain ⟨letters, rfl, hmarks⟩ := takeSuffix?_some hsuffix
    cases hkind : decimalKind? fractional needless (some suffix) with
    | some kind =>
      have hform : Suffixed fractional needless kind letters :=
        suffixed_iff.mpr ⟨some suffix, hmarks, hkind⟩
      simp only [hkind, Option.map_some]
      refine .taken rfl hform ⟨List.prefix_append letters rest, ⟨kind, hform⟩, ?_⟩
      rintro other hbegins ⟨otherKind, hother⟩
      rcases hother.takeSuffix? hbegins with rfl | ⟨found, behind, htext, hread, -⟩
      · exact Nat.zero_le _
      · rw [hsuffix] at hread
        cases hread
        rw [List.append_cancel_right htext]
    | none =>
      simp only [hkind, Option.map_none]
      obtain ⟨c, others, rfl, -⟩ := suffix_head hmarks
      have hletter : c.toLower ∈ suffixLetters := by
        apply mem_suffixLetters suffix
        rw [← hmarks]
        exact List.mem_cons_self
      refine .held [] rfl (longest_unsuffixed ?_) (isWordPart_of_suffix hletter)
      intro found behind hread
      rw [hsuffix] at hread
      cases hread
      exact hkind

/-! ## Decimal numbers -/

/-- The suffixes that may follow a figure. -/
def Suffixes (figure letters : List Char) : Prop :=
  ∃ fractional kind, Figure fractional figure
    ∧ Suffixed fractional (needlessZero figure) kind letters

theorem decimalForm_iff {text : List Char} :
    (∃ kind, DecimalForm kind text) ↔ Followed IsFigure Suffixes text := by
  constructor
  · rintro ⟨kind, @⟨fractional, _, figure, letters, hfigure, hkind⟩⟩
    exact ⟨figure, letters, rfl, ⟨fractional, hfigure⟩, fractional, kind, hfigure, hkind⟩
  · rintro ⟨figure, letters, rfl, -, fractional, kind, hfigure, hkind⟩
    exact ⟨kind, .mk hfigure hkind⟩

/-- The longest figure with the longest suffix behind it is the longest decimal number. -/
theorem longest_decimal {fractional : Bool} {figure letters rest : List Char}
    (hfigure : Figure fractional figure) (hlongest : Longest IsFigure (figure ++ rest) figure)
    (hletters : Longest (fun part => ∃ kind, Suffixed fractional (needlessZero figure) kind part)
      rest letters) :
    Longest (fun part => ∃ kind, DecimalForm kind part) (figure ++ rest) (figure ++ letters) := by
  have hsuffixes (letters : List Char) : Suffixes figure letters
      ↔ ∃ kind, Suffixed fractional (needlessZero figure) kind letters := by
    constructor
    · rintro ⟨other, kind, hother, hkind⟩
      obtain rfl : other = fractional := hother.fractional_eq.trans hfigure.fractional_eq.symm
      exact ⟨kind, hkind⟩
    · rintro ⟨kind, hkind⟩
      exact ⟨fractional, kind, hfigure, hkind⟩
  have hsecond : Longest (Suffixes figure) rest letters :=
    hletters.restrict ((hsuffixes letters).mpr hletters.formed) fun other _ =>
      (hsuffixes other).mp
  have hboth := hlongest.append hsecond (by
    rintro short behind long ⟨_, kind, -, hkind⟩ ⟨_, hlong⟩ c hc hmem
    exact (hlong.toLower c hmem).1 (hkind.toLower c (List.mem_of_mem_head? hc)))
  exact hboth.restrict (decimalForm_iff.mpr hboth.formed) fun other _ => decimalForm_iff.mp

theorem decimalNumeral?_munched (text : List Char) :
    Munched DecimalForm text (decimalNumeral? text) := by
  rcases decimalNumeral?_longest text with
    ⟨hread, hnone⟩ | ⟨fractional, figure, rest, rfl, hfigure, hlongest, hread⟩
  · rw [hread]
    refine .missing ?_
    rintro _ hbegins _ ⟨hother, -⟩
    exact hnone _ ((List.prefix_append _ _).trans hbegins) ⟨_, hother⟩
  · have hend := suffixEnd_munched fractional (needlessZero figure) rest
    rw [hread]
    generalize suffixEnd fractional (needlessZero figure) rest = read at hend
    cases hend with
    | taken htext hform hletters =>
      subst htext
      exact .taken (List.append_assoc ..).symm (.mk hfigure hform)
        (longest_decimal hfigure hlongest hletters)
    | held front htext hletters hc =>
      subst htext
      exact .held _ (List.append_assoc ..).symm (longest_decimal hfigure hlongest hletters) hc
    | missing hnone =>
      obtain ⟨kind, hempty⟩ := suffixed_nil fractional (needlessZero figure)
      exact absurd hempty (hnone [] List.nil_prefix kind)

/-! ## Hexadecimal numbers -/

/-- No hexadecimal digit is the mark of a long number. -/
theorem isHexDigit_of_long {c : Char} (h : c.toLower = 'l') : isHexDigit c = false := by
  cases hdigit : isHexDigit c with
  | false => rfl
  | true =>
    exact absurd h (of_isHexDigit (p := fun d => d.toLower ≠ 'l') hdigit (by decide))

/-- The mark of a long number is read wherever it stands. -/
theorem dropLong_longest (text : List Char) :
    ∃ letters rest, text = letters ++ rest ∧ (dropWord? ['l'] text).getD text = rest
      ∧ Longest Long text letters := by
  cases hword : dropWord? ['l'] text with
  | none =>
    refine ⟨[], text, rfl, rfl, List.nil_prefix, .inl rfl, ?_⟩
    rintro other ⟨rest, rfl⟩ (rfl | hother)
    · exact Nat.le_refl 0
    · rw [← hother, dropWord?_append] at hword
      cases hword
  | some rest =>
    obtain ⟨letters, rfl, hletters⟩ := dropWord?_eq_some hword
    refine ⟨letters, rest, rfl, rfl, List.prefix_append letters rest, .inr hletters, ?_⟩
    rintro other - (rfl | hother)
    · exact Nat.zero_le _
    · rw [← foldCase_length other, ← foldCase_length letters, hother, hletters]

/-- The longest row of hexadecimal digits, with the mark of a long number if it stands there. -/
theorem hexNumeral?_longest {text : List Char} (h : text.head?.any isHexDigit = true) :
    ∃ digits letters rest, text = digits ++ letters ++ rest ∧ Row isHexDigit digits ∧ Long letters
      ∧ hexNumeral? text = some (.hex, rest)
      ∧ Longest (Followed (fun part => ∀ c ∈ part, isHexDigit c = true) fun _ => Long) text
        (digits ++ letters) := by
  have hrow := row_of_head h
  have hsplit : text.takeWhile isHexDigit ++ text.dropWhile isHexDigit = text :=
    List.takeWhile_append_dropWhile
  have hbehind := @not_head_dropWhile isHexDigit text
  generalize text.takeWhile isHexDigit = digits at hrow hsplit
  generalize text.dropWhile isHexDigit = behind at hsplit hbehind
  subst hsplit
  obtain ⟨letters, rest, rfl, hrest, hlongest⟩ := dropLong_longest behind
  refine ⟨digits, letters, rest, by simp, hrow, hlongest.formed, ?_, ?_⟩
  · rw [hexNumeral?_digits hrow.ne_nil hrow.all hbehind, hrest]
  · refine (longest_row hrow.all hbehind).append hlongest ?_
    rintro - other long (rfl | hother) hlong c hc hmem
    · cases hc
    · obtain ⟨d, others, rfl, hd, -⟩ := List.map_eq_cons_iff.mp hother
      cases hc
      have hdigit := hlong _ hmem
      rw [isHexDigit_of_long hd] at hdigit
      cases hdigit

theorem HexForm.isPrefixed {text : List Char} (h : HexForm text) (rest : List Char) :
    isPrefixed (text ++ rest) = true := by
  obtain ⟨hmark, -, -, -⟩ := h
  rcases hmark with rfl | rfl
  · rfl
  · rfl

section

variable {mark : Char} {text rest : List Char} (hbegins : text <+: '0' :: mark :: rest)
include hbegins

/-- Behind a zero the mark of a radix prefix is read neither as a digit nor as a suffix. -/
theorem DecimalForm.length_le {kind : LiteralKind} (h : DecimalForm kind text)
    (hmark : mark = 'x' ∨ mark = 'X') : text.length ≤ 1 := by
  match text, h, hbegins with
  | [], _, _ => exact Nat.zero_le 1
  | [_], _, _ => exact Nat.le_refl 1
  | _ :: d :: text, h, hbegins =>
    have hd : d = mark := (List.cons_prefix_cons.mp (List.cons_prefix_cons.mp hbegins).2).1
    have hne := h.toLower d (by simp)
    rw [hd] at hne
    rcases hmark with rfl | rfl
    · exact absurd rfl hne
    · exact absurd rfl hne

theorem HexForm.digits (h : HexForm text) :
    ∃ digits letters, text = '0' :: mark :: (digits ++ letters) ∧ Row isHexDigit digits
      ∧ Long letters ∧ digits ++ letters <+: rest := by
  obtain ⟨-, hne, hdigits, hletters⟩ := h
  rename_i found digits letters
  obtain ⟨rfl, hrest⟩ := List.cons_prefix_cons.mp (List.cons_prefix_cons.mp hbegins).2
  exact ⟨digits, letters, rfl, ⟨hne, fun c hc => isHexDigit_iff.mpr (hdigits c hc)⟩, hletters,
    hrest⟩

end

/-- Behind a radix prefix hexadecimal digits are read. Where there are none, only the zero of the
prefix is a number, and its mark is a character of an identifier. -/
theorem hexNumeral?_munched {mark : Char} (hmark : mark = 'x' ∨ mark = 'X') (rest : List Char) :
    Munched NumberForm ('0' :: mark :: rest) (hexNumeral? rest) := by
  cases hhead : rest.head?.any isHexDigit with
  | true =>
    obtain ⟨digits, letters, behind, rfl, hrow, hletters, hread, hlongest⟩ :=
      hexNumeral?_longest hhead
    have hform : NumberForm .hex ('0' :: mark :: (digits ++ letters)) :=
      .hex (.mk hmark hrow.ne_nil (fun c hc => isHexDigit_iff.mp (hrow.all c hc)) hletters)
    rw [hread]
    refine .taken rfl hform ⟨?_, ⟨.hex, hform⟩, ?_⟩
    · exact List.prefix_append ('0' :: mark :: (digits ++ letters)) behind
    · rintro other hbegins ⟨kind, hhex | hdecimal⟩
      · obtain ⟨others, marks, rfl, hothers, hmarks, hbegins⟩ := hhex.digits hbegins
        have hlength := hlongest.longest _ hbegins ⟨others, marks, rfl, hothers.all, hmarks⟩
        simpa using hlength
      · have hlength := hdecimal.length_le hbegins hmark
        simp only [List.length_cons]
        omega
  | false =>
    have hread : hexNumeral? rest = none := by
      unfold hexNumeral?
      rw [hhead]
      rfl
    have hrow : Row Char.isDigit ['0'] := ⟨List.cons_ne_nil _ _, List.forall_mem_singleton.mpr rfl⟩
    have hzero : DecimalForm .integer (['0'] ++ []) := .mk (.whole hrow) .integer
    rw [hread]
    refine .held ['0'] rfl ⟨?_, ⟨.integer, .decimal hzero⟩, ?_⟩ ?_
    · exact List.prefix_append ['0'] (mark :: rest)
    · rintro other hbegins ⟨kind, hhex | hdecimal⟩
      · obtain ⟨digits, letters, -, hrow, -, hdigits⟩ := hhex.digits hbegins
        cases digits with
        | nil => exact absurd rfl hrow.ne_nil
        | cons c digits =>
          obtain ⟨behind, rfl⟩ := hdigits
          have hc : isHexDigit c = false := hhead
          rw [hrow.all c List.mem_cons_self] at hc
          cases hc
      · exact hdecimal.length_le hbegins hmark
    · rcases hmark with rfl | rfl <;> decide

/-! ## Numbers -/

/-- The number that a text begins with is the longest of its beginnings that have the form of a
number. -/
theorem numeral?_munched (text : List Char) : Munched NumberForm text (numeral? text) := by
  cases hprefixed : isPrefixed text with
  | false =>
    rw [numeral?_plain hprefixed]
    refine (decimalNumeral?_munched text).congr ?_
    rintro front ⟨rest, rfl⟩ kind
    constructor
    · exact .decimal
    · rintro (hhex | hdecimal)
      · rw [hhex.isPrefixed] at hprefixed
        cases hprefixed
      · exact hdecimal
  | true =>
    match text, hprefixed with
    | c :: mark :: rest, hprefixed =>
      rw [numeral?_prefixed hprefixed]
      simp only [isPrefixed, Bool.and_eq_true, Bool.or_eq_true, decide_eq_true_eq] at hprefixed
      obtain ⟨rfl, hmark⟩ := hprefixed
      exact hexNumeral?_munched hmark rest

theorem numericLiteral?_eq_some_iff {text rest : List Char} {literal : Literal} :
    numericLiteral? text = some (literal, rest) ↔
      ∃ front, text = front ++ rest ∧ Longest IsNumber text front
        ∧ (∀ c ∈ rest.head?, isWordPart c = false)
        ∧ NumberForm literal.kind front ∧ literal.text = String.ofList front := by
  have hnumber := numeral?_munched text
  unfold numericLiteral?
  generalize numeral? text = read at hnumber
  cases hnumber with
  | @taken kind front behind htext hform hlongest =>
    subst htext
    have htake : (front ++ behind).take ((front ++ behind).length - behind.length) = front := by
      rw [List.length_append, Nat.add_sub_cancel, List.take_left]
    simp only [htake]
    constructor
    · intro h
      split at h
      · rename_i hends
        cases h
        exact ⟨front, rfl, hlongest, endsWord_iff.mp hends, hform, rfl⟩
      · cases h
    · rintro ⟨other, htext, hother, hrest, hkind, hliteral⟩
      obtain rfl := hlongest.unique hother
      obtain rfl := List.append_cancel_left htext
      rw [if_pos (endsWord_iff.mpr hrest), hform.unique hkind, ← hliteral]
  | held front htext hlongest hc =>
    subst htext
    constructor
    · nofun
    · rintro ⟨other, htext, hother, hrest, -⟩
      obtain rfl := hlongest.unique hother
      obtain rfl := List.append_cancel_left htext
      rw [hrest _ rfl] at hc
      cases hc
  | missing hnone =>
    constructor
    · nofun
    · rintro ⟨other, -, ⟨hbegins, ⟨kind, hother⟩, -⟩, -⟩
      exact absurd hother (hnone other hbegins kind)

theorem numericLiteral?_eq_none_iff {text : List Char} :
    numericLiteral? text = none ↔
      (∀ front, front <+: text → ¬IsNumber front)
      ∨ ∃ front c rest, text = front ++ c :: rest ∧ Longest IsNumber text front
        ∧ isWordPart c = true := by
  constructor
  · intro h
    have hnumber := numeral?_munched text
    unfold numericLiteral? at h
    generalize numeral? text = read at hnumber h
    cases hnumber with
    | @taken kind front rest htext hform hlongest =>
      cases rest with
      | nil => cases h
      | cons c rest =>
        refine .inr ⟨front, c, rest, htext, hlongest, ?_⟩
        cases hc : isWordPart c with
        | true => rfl
        | false =>
          have hends : endsWord (c :: rest) = true := by simp [endsWord, hc]
          simp only [hends, if_true] at h
          cases h
    | held front htext hlongest hc => exact .inr ⟨front, _, _, htext, hlongest, hc⟩
    | missing hnone =>
      refine .inl ?_
      rintro front hbegins ⟨kind, hform⟩
      exact hnone front hbegins kind hform
  · intro h
    rw [Option.eq_none_iff_forall_ne_some]
    rintro ⟨literal, rest⟩ hread
    obtain ⟨front, htext, hlongest, hrest, -, -⟩ := numericLiteral?_eq_some_iff.mp hread
    rcases h with hnone | ⟨other, c, behind, hother, hlonger, hc⟩
    · exact hnone front hlongest.begins hlongest.formed
    · obtain rfl := hlongest.unique hlonger
      rw [htext] at hother
      obtain rfl := List.append_cancel_left hother
      rw [hrest c rfl] at hc
      cases hc

/-- A text is read to its end as the number that it has the form of. -/
theorem numericLiteral?_whole_iff {text : List Char} {literal : Literal} :
    numericLiteral? text = some (literal, []) ↔
      NumberForm literal.kind text ∧ literal.text = String.ofList text := by
  rw [numericLiteral?_eq_some_iff]
  constructor
  · rintro ⟨front, rfl, -, -, hform⟩
    rw [List.append_nil]
    exact hform
  · rintro ⟨hform, htext⟩
    exact ⟨text, (List.append_nil text).symm, longest_self ⟨_, hform⟩, by simp, hform, htext⟩

/-! ## What follows a number -/

/-- A number is read wherever it stands, if a character follows that is in no number. -/
theorem numericLiteral?_front {literal : Literal} {front rest : List Char}
    (hform : NumberForm literal.kind front) (htext : literal.text = String.ofList front)
    (hrest : ∀ c ∈ rest.head?, EndsNumber c) :
    numericLiteral? (front ++ rest) = some (literal, rest) := by
  refine numericLiteral?_eq_some_iff.mpr ⟨front, rfl, ?_, fun c hc => (hrest c hc).1, hform, htext⟩
  exact (longest_append_iff fun c hc _ => (hrest c hc).not_mem).mpr (longest_self ⟨_, hform⟩)

/-- What follows a text does not matter if it begins with a character that is in no number. -/
theorem numericLiteral?_append {rest : List Char} (hrest : ∀ c ∈ rest.head?, EndsNumber c)
    (text : List Char) :
    numericLiteral? (text ++ rest) = (numericLiteral? text).map (Prod.map id (· ++ rest)) := by
  have hlongest (front : List Char) :
      Longest IsNumber (text ++ rest) front ↔ Longest IsNumber text front :=
    longest_append_iff fun c hc _ => (hrest c hc).not_mem
  have hends (behind : List Char) : (∀ c ∈ (behind ++ rest).head?, isWordPart c = false)
      ↔ ∀ c ∈ behind.head?, isWordPart c = false := by
    cases behind with
    | nil => simpa using fun c hc => (hrest c hc).1
    | cons c behind => simp
  ext ⟨literal, after⟩
  rw [numericLiteral?_eq_some_iff, Option.map_eq_some_iff]
  constructor
  · rintro ⟨front, htext, hfront, hafter, hform⟩
    obtain ⟨behind, rfl⟩ := ((hlongest front).mp hfront).begins
    rw [List.append_assoc] at htext
    obtain rfl := List.append_cancel_left htext
    exact ⟨(literal, behind), numericLiteral?_eq_some_iff.mpr
      ⟨front, rfl, (hlongest front).mp hfront, (hends behind).mp hafter, hform⟩, rfl⟩
  · rintro ⟨⟨found, behind⟩, hread, heq⟩
    cases heq
    obtain ⟨front, rfl, hfront, hbehind, hform⟩ := numericLiteral?_eq_some_iff.mp hread
    exact ⟨front, List.append_assoc .., (hlongest front).mpr hfront, (hends behind).mpr hbehind,
      hform⟩

/-! ## The literals that are numbers -/

theorem quotedKind_not_number (quote : Char) (content : List Char) :
    quotedKind quote content ∉ numberKinds := by
  unfold quotedKind
  split
  · decide
  · decide

/-- A text that is a literal of the kind of a number is a number, and the literal keeps it. -/
theorem numeral_of_literal? {text : List Char} {literal : Literal}
    (h : literal? text = some (literal, [])) (hkind : literal.kind ∈ numberKinds) :
    Numeral literal.kind text ∧ literal.text = String.ofList text := by
  unfold literal? at h
  split at h
  · cases h
  · rename_i c rest
    split at h
    · obtain ⟨read, -, heq⟩ := Option.map_eq_some_iff.mp h
      simp only [Prod.mk.injEq] at heq
      obtain ⟨rfl, -⟩ := heq
      exact absurd hkind (quotedKind_not_number c _)
    · split at h
      · rename_i read hword
        obtain ⟨entry, hentry, hfound⟩ := List.exists_of_findSome?_eq_some hword
        obtain ⟨behind, -, heq⟩ := Option.map_eq_some_iff.mp hfound
        have hwords : ∀ entry ∈ wordLiterals, entry.2 ∉ numberKinds := by decide
        cases h
        cases heq
        exact absurd hkind (hwords entry hentry)
      · exact (numericLiteral?_whole_iff.mp h).imp_left numberForm_iff.mp

theorem wordLiteral?_of_head {c : Char} (hc : isWordStart c = false) (text : List Char) :
    wordLiteral? (c :: text) = none := by
  have hall : ∀ entry ∈ wordLiterals, entry.1 ∈ reservedWords := by decide
  unfold wordLiteral?
  rw [List.findSome?_eq_none_iff]
  intro entry hentry
  rw [dropKeyword?_of_head (hall entry hentry) hc]
  rfl

theorem literal?_unquoted {c : Char} {text : List Char} (hsingle : c ≠ singleQuote)
    (hdouble : c ≠ doubleQuote) :
    literal? (c :: text) = match wordLiteral? (c :: text) with
      | some read => some read
      | none => numericLiteral? (c :: text) := by
  have hquote : ¬(decide (c = singleQuote) || decide (c = doubleQuote)) = true := by
    simp [hsingle, hdouble]
  exact if_neg hquote

/-- A text that begins with a digit or a point is no quoted text and no word. -/
theorem literal?_numeric {c : Char} (h : BeginsNumber c) (text : List Char) :
    literal? (c :: text) = numericLiteral? (c :: text) := by
  rw [literal?_unquoted h.ne_quote.1 h.ne_quote.2, wordLiteral?_of_head h.isWordStart]

/-- A numeric literal is read exactly where the longest beginning of the text that has the form of
a number is followed by no character of an identifier. It is then the whole of that beginning, and
has the kind of its form. Elsewhere nothing is read: no beginning is a number, or the longest that
is one is followed by a character of an identifier. -/
theorem numericLiteral?_longest (text : List Char) :
    (∀ literal rest, numericLiteral? text = some (literal, rest) ↔
      ∃ front, text = front ++ rest ∧ Longest IsNumber text front
        ∧ (∀ c ∈ rest.head?, isWordPart c = false)
        ∧ NumberForm literal.kind front ∧ literal.text = String.ofList front)
    ∧ (numericLiteral? text = none ↔
      (∀ front, front <+: text → ¬IsNumber front)
      ∨ ∃ front c rest, text = front ++ c :: rest ∧ Longest IsNumber text front
        ∧ isWordPart c = true)
    ∧ ((∀ c ∈ text.head?, BeginsNumber c) →
      (literalToken text = .fail text ↔ numericLiteral? text = none)) := by
  refine ⟨fun _ _ => numericLiteral?_eq_some_iff, numericLiteral?_eq_none_iff, ?_⟩
  intro hbegins
  have hnumeric : literal? text = numericLiteral? text := by
    cases text with
    | nil => rfl
    | cons c text => exact literal?_numeric (hbegins c rfl) text
  unfold literalToken
  rw [hnumeric]
  cases numericLiteral? text with
  | none => simp
  | some read => simp

/-- No point follows an exponent, so that the number ends before it. -/
example : numericLiteral? "1e+5.f".toList = some (⟨.float, "1e+5"⟩, ".f".toList) := by
  decide +kernel

/-- The longest number here has no mark of a long number, and that mark continues an identifier. -/
example : numericLiteral? "1.5L".toList = none := by decide +kernel

end EntityQuery.Grammar

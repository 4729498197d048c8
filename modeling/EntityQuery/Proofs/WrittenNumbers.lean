import EntityQuery.Proofs.DigitRows

/-!
# Written numbers

A text that is a number from its first to its last character is a row of digits, a decimal with a
point or an exponent, or a row of hexadecimal digits behind a radix prefix, with the letters of a
suffix at its end. This is said here without any reading. The form of a number decides its kind,
and its characters tell where it may end.

* `Marks`, `Exponent`, `Fractional`, `Figure`: the parts of a number.
* `Numeral`: the numbers of each kind, as their suffixes decide it.
* `NumberForm`: the same numbers, with each kind spelled out; `numberForm_iff`.
* `NumberForm.unique`: a number has one kind.
* `BeginsNumber`, `EndsNumber`: the characters at the beginning of a number and behind its end.
-/

namespace EntityQuery.Grammar

open EntityQuery.Text
open EntityQuery.Phrase (Literal LiteralKind)

/-! ## Parts of numbers -/

/-- The letters of a suffix in any case, or nothing where there is none. -/
def Marks (suffix? : Option Suffix) (letters : List Char) : Prop :=
  foldCase letters = (suffix?.map Suffix.letters).getD []

/-- A mark, perhaps a sign, and digits. -/
inductive Exponent : List Char → Prop
  | mk {mark : Char} {sign digits : List Char} (hmark : mark = 'e' ∨ mark = 'E')
    (hsign : sign = [] ∨ sign = ['+'] ∨ sign = ['-']) (hdigits : Row Char.isDigit digits) :
    Exponent (mark :: (sign ++ digits))

/-- Digits with a point or an exponent, or with both. -/
inductive Fractional : List Char → Prop
  | raised {whole exponent : List Char} (hwhole : Row Char.isDigit whole)
    (hexponent : Exponent exponent) : Fractional (whole ++ exponent)
  | pointed {whole fraction exponent : List Char} (hwhole : ∀ c ∈ whole, c.isDigit = true)
    (hfraction : ∀ c ∈ fraction, c.isDigit = true) (hsome : whole ++ fraction ≠ [])
    (hexponent : exponent = [] ∨ Exponent exponent) :
    Fractional (whole ++ '.' :: (fraction ++ exponent))

/-- The digits begin with a zero that they do not need. -/
def needlessZero (whole : List Char) : Bool :=
  decide (1 < whole.length) && decide (whole.head? = some '0')

/-- The text is a number of the kind. -/
inductive Numeral : LiteralKind → List Char → Prop
  | whole {digits letters : List Char} {suffix? : Option Suffix} {kind : LiteralKind}
    (hdigits : Row Char.isDigit digits) (hletters : Marks suffix? letters)
    (hkind : decimalKind? false (needlessZero digits) suffix? = some kind) :
    Numeral kind (digits ++ letters)
  | fractional {decimal letters : List Char} {suffix? : Option Suffix} {kind : LiteralKind}
    (hdecimal : Fractional decimal) (hletters : Marks suffix? letters)
    (hkind : decimalKind? true false suffix? = some kind) : Numeral kind (decimal ++ letters)
  | hex {mark : Char} {digits letters : List Char} (hmark : mark = 'x' ∨ mark = 'X')
    (hdigits : Row isHexDigit digits) (hletters : letters = [] ∨ foldCase letters = ['l']) :
    Numeral .hex ('0' :: mark :: (digits ++ letters))

/-- The kinds of numbers. -/
def numberKinds : List LiteralKind :=
  [.integer, .long, .bigInteger, .float, .double, .bigDecimal, .hex, .octal]

theorem marks_none {letters : List Char} (h : Marks none letters) : letters = [] :=
  List.map_eq_nil_iff.mp h

/-- A suffix does not begin with a digit. -/
theorem Marks.not_digit {suffix? : Option Suffix} {letters : List Char}
    (h : Marks suffix? letters) : ∀ c ∈ letters.head?, c.isDigit = false := by
  intro c hc
  cases suffix? with
  | none =>
    rw [marks_none h] at hc
    cases hc
  | some suffix =>
    obtain ⟨d, others, rfl, halpha⟩ := suffix_head h
    cases hc
    exact isDigit_of_isAlpha halpha

theorem Exponent.isEmpty {exponent : List Char} (h : Exponent exponent) :
    exponent.isEmpty = false := by
  cases h
  rfl

theorem Exponent.head {exponent : List Char} (h : Exponent exponent) (rest : List Char) :
    ∀ c ∈ (exponent ++ rest).head?, c.isDigit = false ∧ c ≠ '.' := by
  obtain ⟨hmark, -, -⟩ := h
  rintro c ⟨⟩
  rcases hmark with rfl | rfl
  · decide
  · decide

/-! ## Figures -/

/-- Digits alone, or with a point or an exponent or both. -/
inductive Figure : (fractional : Bool) → List Char → Prop
  | whole {digits : List Char} (h : Row Char.isDigit digits) : Figure false digits
  | fractional {decimal : List Char} (h : Fractional decimal) : Figure true decimal

/-- Digits, perhaps none. -/
def Digits (part : List Char) : Prop := ∀ c ∈ part, c.isDigit = true

/-- A point with digits behind it, or nothing. -/
def Pointed (part : List Char) : Prop := part = [] ∨ ∃ digits, part = '.' :: digits ∧ Digits digits

/-- An exponent, or nothing. -/
def Raised (part : List Char) : Prop := part = [] ∨ Exponent part

theorem Row.any_isDigit {row : List Char} (h : Row Char.isDigit row) :
    row.any Char.isDigit = true := by
  obtain ⟨c, hc⟩ := List.exists_mem_of_ne_nil row h.ne_nil
  exact List.any_eq_true.mpr ⟨c, hc, h.all c hc⟩

/-- A figure consists of digits, a point and an exponent, with a digit before the exponent. -/
theorem Figure.parts {fractional : Bool} {figure : List Char} (h : Figure fractional figure) :
    ∃ whole point exponent, figure = whole ++ (point ++ exponent) ∧ Digits whole ∧ Pointed point
      ∧ Raised exponent ∧ (whole ++ point).any Char.isDigit = true
      ∧ fractional = !(point ++ exponent).isEmpty := by
  cases h with
  | whole hrow =>
    exact ⟨figure, [], [], by simp, hrow.all, .inl rfl, .inl rfl, by simpa using hrow.any_isDigit,
      rfl⟩
  | fractional hdecimal =>
    cases hdecimal with
    | @raised whole exponent hwhole hexponent =>
      exact ⟨whole, [], exponent, rfl, hwhole.all, .inl rfl, .inr hexponent,
        by simpa using hwhole.any_isDigit, by simp [hexponent.isEmpty]⟩
    | @pointed whole fraction exponent hwhole hfraction hsome hexponent =>
      refine ⟨whole, '.' :: fraction, exponent, rfl, hwhole, .inr ⟨fraction, rfl, hfraction⟩,
        hexponent, ?_, rfl⟩
      have hrow : Row Char.isDigit (whole ++ fraction) := by
        refine ⟨hsome, ?_⟩
        intro c hc
        rcases List.mem_append.mp hc with hc | hc
        · exact hwhole c hc
        · exact hfraction c hc
      simpa using hrow.any_isDigit

theorem figure_of_parts {whole point exponent : List Char} (hwhole : Digits whole)
    (hpoint : Pointed point) (hexponent : Raised exponent)
    (hany : (whole ++ point).any Char.isDigit = true) :
    Figure (!(point ++ exponent).isEmpty) (whole ++ (point ++ exponent)) := by
  rcases hpoint with rfl | ⟨fraction, rfl, hfraction⟩
  · have hrow : Row Char.isDigit whole := by
      refine ⟨?_, hwhole⟩
      rintro rfl
      cases hany
    rcases hexponent with rfl | hexponent
    · simpa using Figure.whole hrow
    · simpa [hexponent.isEmpty] using Figure.fractional (.raised hrow hexponent)
  · have hsome : whole ++ fraction ≠ [] := by
      intro hnil
      obtain ⟨rfl, rfl⟩ := List.append_eq_nil_iff.mp hnil
      cases hany
    exact .fractional (.pointed hwhole hfraction hsome hexponent)

/-- A text of one form with a text of another behind it. -/
def Followed (first : List Char → Prop) (second : List Char → List Char → Prop)
    (text : List Char) : Prop :=
  ∃ front behind, text = front ++ behind ∧ first front ∧ second front behind

/-- Digits and a point, perhaps none of them. -/
def Mantissa : List Char → Prop := Followed Digits fun _ => Pointed

theorem Mantissa.mem {mantissa : List Char} (h : Mantissa mantissa) :
    ∀ c ∈ mantissa, c.isDigit = true ∨ c = '.' := by
  obtain ⟨whole, point, rfl, hwhole, hpoint⟩ := h
  intro c hc
  rcases List.mem_append.mp hc with hc | hc
  · exact .inl (hwhole c hc)
  · rcases hpoint with rfl | ⟨digits, rfl, hdigits⟩
    · cases hc
    · rcases List.mem_cons.mp hc with rfl | hc
      · exact .inr rfl
      · exact .inl (hdigits c hc)

theorem Figure.followed {fractional : Bool} {figure : List Char} (h : Figure fractional figure) :
    Followed Mantissa (fun _ => Raised) figure := by
  obtain ⟨whole, point, exponent, rfl, hwhole, hpoint, hexponent, -, -⟩ := h.parts
  exact ⟨whole ++ point, exponent, (List.append_assoc ..).symm, ⟨whole, point, rfl, hwhole, hpoint⟩,
    hexponent⟩

theorem Figure.head {fractional : Bool} {figure : List Char} (h : Figure fractional figure) :
    ∃ c others, figure = c :: others ∧ BeginsNumber c := by
  obtain ⟨whole, point, exponent, rfl, hwhole, hpoint, -, hany, -⟩ := h.parts
  have hmantissa : Mantissa (whole ++ point) := ⟨whole, point, rfl, hwhole, hpoint⟩
  rw [← List.append_assoc]
  generalize whole ++ point = mantissa at hany hmantissa
  cases mantissa with
  | nil => cases hany
  | cons c mantissa =>
    exact ⟨c, mantissa ++ exponent, rfl, hmantissa.mem c List.mem_cons_self⟩

/-- The characters of a figure that are no digits. -/
def figureMarks : List Char := ['.', 'e', 'E', '+', '-']

theorem Figure.mem {fractional : Bool} {figure : List Char} (h : Figure fractional figure) :
    ∀ c ∈ figure, c.isDigit = true ∨ c ∈ figureMarks := by
  obtain ⟨mantissa, exponent, rfl, hmantissa, hexponent⟩ := h.followed
  intro c hc
  rcases List.mem_append.mp hc with hc | hc
  · rcases hmantissa.mem c hc with hc | rfl
    · exact .inl hc
    · exact .inr (by decide)
  · rcases hexponent with rfl | ⟨hmark, hsign, hdigits⟩
    · cases hc
    · rcases List.mem_cons.mp hc with rfl | hc
      · rcases hmark with rfl | rfl
        · exact .inr (by decide)
        · exact .inr (by decide)
      · rcases List.mem_append.mp hc with hc | hc
        · rcases hsign with rfl | rfl | rfl
          · cases hc
          · rw [List.mem_singleton.mp hc]
            exact .inr (by decide)
          · rw [List.mem_singleton.mp hc]
            exact .inr (by decide)
        · exact .inl (hdigits.all c hc)

/-- What holds of the characters of figures can be looked up. -/
theorem Figure.of_mem {fractional : Bool} {figure : List Char} (h : Figure fractional figure)
    {p : Char → Prop} [DecidablePred p] {c : Char} (hc : c ∈ figure)
    (hdigits : (hexDigits.all fun d => decide (d.isDigit = true → p d)) = true)
    (hmarks : (figureMarks.all fun d => decide (p d)) = true) : p c := by
  rcases h.mem c hc with hdigit | hmark
  · exact of_isHexDigit (p := fun d => d.isDigit = true → p d) (isHexDigit_of_isDigit hdigit)
      hdigits hdigit
  · exact List.all_iff_forall_prop.mp hmarks c hmark

/-- A point and an exponent show in the characters of a figure. -/
theorem Figure.fractional_eq {fractional : Bool} {figure : List Char}
    (h : Figure fractional figure) : fractional = !figure.all Char.isDigit := by
  cases h with
  | whole hrow => simpa using hrow.all
  | fractional hdecimal =>
    cases hdecimal with
    | raised hwhole hexponent =>
      obtain ⟨hmark, -, -⟩ := hexponent
      rcases hmark with rfl | rfl <;> simp
    | pointed => simp

/-! ## Suffixes -/

/-- What the letters of a suffix, in small letters, say of the kind of a number: with a point or an
exponent or without, and with a needless zero before its digits or without. -/
inductive KindBehind : (fractional needless : Bool) → List Char → LiteralKind → Prop
  | float (fractional needless : Bool) : KindBehind fractional needless ['f'] .float
  | double (fractional needless : Bool) : KindBehind fractional needless ['d'] .double
  | bigDecimal (fractional needless : Bool) :
    KindBehind fractional needless ['b', 'd'] .bigDecimal
  | bigInteger (needless : Bool) : KindBehind false needless ['b', 'i'] .bigInteger
  | fraction (needless : Bool) : KindBehind true needless [] .float
  | octal : KindBehind false true [] .octal
  | longOctal : KindBehind false true ['l'] .octal
  | integer : KindBehind false false [] .integer
  | long : KindBehind false false ['l'] .long

/-- The letters of a suffix, in any case, that give a number its kind. -/
def Suffixed (fractional needless : Bool) (kind : LiteralKind) (letters : List Char) : Prop :=
  KindBehind fractional needless (foldCase letters) kind

/-- What a suffix says of the kind is what its letters say. -/
theorem kindBehind_iff {fractional needless : Bool} {suffix? : Option Suffix}
    {kind : LiteralKind} :
    KindBehind fractional needless ((suffix?.map Suffix.letters).getD []) kind
      ↔ decimalKind? fractional needless suffix? = some kind := by
  constructor
  · intro h
    match suffix?, h with
    | none, .fraction _ | none, .octal | none, .integer => rfl
    | some .long, .longOctal | some .long, .long => rfl
    | some .bigInteger, .bigInteger _ => rfl
    | some .float, .float _ _ | some .double, .double _ _ | some .bigDecimal, .bigDecimal _ _ => rfl
  · intro h
    match suffix?, fractional, needless with
    | none, true, _ => cases h; exact .fraction _
    | none, false, true => cases h; exact .octal
    | none, false, false => cases h; exact .integer
    | some .long, false, true => cases h; exact .longOctal
    | some .long, false, false => cases h; exact .long
    | some .bigInteger, false, _ => cases h; exact .bigInteger _
    | some .float, _, _ => cases h; exact .float _ _
    | some .double, _, _ => cases h; exact .double _ _
    | some .bigDecimal, _, _ => cases h; exact .bigDecimal _ _

theorem KindBehind.suffix {fractional needless : Bool} {letters : List Char} {kind : LiteralKind}
    (h : KindBehind fractional needless letters kind) :
    ∃ suffix?, letters = (Option.map Suffix.letters suffix?).getD [] := by
  cases h with
  | float => exact ⟨some .float, rfl⟩
  | double => exact ⟨some .double, rfl⟩
  | bigDecimal => exact ⟨some .bigDecimal, rfl⟩
  | bigInteger => exact ⟨some .bigInteger, rfl⟩
  | fraction | octal | integer => exact ⟨none, rfl⟩
  | longOctal | long => exact ⟨some .long, rfl⟩

theorem suffixed_iff {fractional needless : Bool} {letters : List Char} {kind : LiteralKind} :
    Suffixed fractional needless kind letters
      ↔ ∃ suffix?, Marks suffix? letters
        ∧ decimalKind? fractional needless suffix? = some kind := by
  unfold Suffixed
  constructor
  · intro h
    obtain ⟨suffix?, hletters⟩ := h.suffix
    rw [hletters] at h
    exact ⟨suffix?, hletters, kindBehind_iff.mp h⟩
  · rintro ⟨suffix?, hletters, hkind⟩
    rw [hletters]
    exact kindBehind_iff.mpr hkind

/-- A number may stand without a suffix. -/
theorem suffixed_nil (fractional needless : Bool) :
    ∃ kind, Suffixed fractional needless kind [] :=
  ⟨_, suffixed_iff.mpr ⟨none, rfl, rfl⟩⟩

theorem KindBehind.unique {fractional needless : Bool} {letters : List Char}
    {kind other : LiteralKind} (h : KindBehind fractional needless letters kind)
    (hother : KindBehind fractional needless letters other) : kind = other := by
  cases h <;> cases hother <;> rfl

theorem KindBehind.kind_mem {fractional needless : Bool} {letters : List Char}
    {kind : LiteralKind} (h : KindBehind fractional needless letters kind) :
    kind ∈ numberKinds := by
  cases h <;> decide

/-- The letters of all suffixes. -/
def suffixLetters : List Char := ['b', 'd', 'f', 'i', 'l']

theorem mem_suffixLetters (suffix : Suffix) : ∀ c ∈ suffix.letters, c ∈ suffixLetters := by
  cases suffix <;> exact List.all_iff_forall_prop.mp (by decide)

theorem isWordPart_of_suffix {c : Char} (h : c.toLower ∈ suffixLetters) : isWordPart c = true := by
  have hall : ∀ d ∈ suffixLetters, d.isLower = true := List.all_eq_true.mp (by decide)
  simp [isWordPart, isLetter_of_isAlpha (isAlpha_of_toLower (hall _ h))]

theorem Suffixed.toLower {fractional needless : Bool} {kind : LiteralKind} {letters : List Char}
    (h : Suffixed fractional needless kind letters) : ∀ c ∈ letters, c.toLower ∈ suffixLetters := by
  intro c hc
  obtain ⟨suffix?, hletters, -⟩ := suffixed_iff.mp h
  cases suffix? with
  | none =>
    rw [marks_none hletters] at hc
    cases hc
  | some suffix =>
    apply mem_suffixLetters suffix
    rw [← show foldCase letters = suffix.letters from hletters]
    exact List.mem_map_of_mem hc

theorem Suffixed.isWordPart {fractional needless : Bool} {kind : LiteralKind}
    {letters : List Char} (h : Suffixed fractional needless kind letters) :
    ∀ c ∈ letters, isWordPart c = true :=
  fun c hc => isWordPart_of_suffix (h.toLower c hc)

/-- No character of a figure is a letter of a suffix or of a radix prefix. -/
theorem Figure.toLower {fractional : Bool} {figure : List Char} (h : Figure fractional figure) :
    ∀ c ∈ figure, c.toLower ∉ suffixLetters ∧ c.toLower ≠ 'x' :=
  fun c hc => h.of_mem (p := fun d => d.toLower ∉ suffixLetters ∧ d.toLower ≠ 'x') hc (by decide)
    (by decide)

/-! ## The forms of numbers -/

/-- A figure with the letters of a suffix. -/
inductive DecimalForm : LiteralKind → List Char → Prop
  | mk {fractional : Bool} {kind : LiteralKind} {figure letters : List Char}
    (hfigure : Figure fractional figure)
    (hletters : Suffixed fractional (needlessZero figure) kind letters) :
    DecimalForm kind (figure ++ letters)

/-- The mark of a long number, or nothing. -/
def Long (letters : List Char) : Prop := letters = [] ∨ foldCase letters = ['l']

/-- A radix prefix, hexadecimal digits, and perhaps the mark of a long number. -/
inductive HexForm : List Char → Prop
  | mk {mark : Char} {digits letters : List Char} (hmark : mark = 'x' ∨ mark = 'X')
    (hne : digits ≠ []) (hdigits : ∀ c ∈ digits, c ∈ hexDigits) (hletters : Long letters) :
    HexForm ('0' :: mark :: (digits ++ letters))

/-- The text has the form of a number of the kind. -/
inductive NumberForm : LiteralKind → List Char → Prop
  | hex {text : List Char} (h : HexForm text) : NumberForm .hex text
  | decimal {kind : LiteralKind} {text : List Char} (h : DecimalForm kind text) :
    NumberForm kind text

/-- The text has the form of a number. -/
def IsNumber (text : List Char) : Prop := ∃ kind, NumberForm kind text

theorem isHexDigit_iff {c : Char} : isHexDigit c = true ↔ c ∈ hexDigits := by
  have hall : ∀ d ∈ hexDigits, isHexDigit d = true := List.all_eq_true.mp (by decide)
  exact ⟨mem_hexDigits, hall c⟩

/-- The kind of a number with a point or an exponent does not ask for a needless zero. -/
theorem decimalKind?_fractional (octal other : Bool) (suffix? : Option Suffix) :
    decimalKind? true octal suffix? = decimalKind? true other suffix? := by
  cases suffix? with
  | none => rfl
  | some suffix => cases suffix <;> rfl

theorem numeral_of_figure {fractional : Bool} {figure letters : List Char}
    {suffix? : Option Suffix} {kind : LiteralKind} (hfigure : Figure fractional figure)
    (hletters : Marks suffix? letters)
    (hkind : decimalKind? fractional (needlessZero figure) suffix? = some kind) :
    Numeral kind (figure ++ letters) := by
  cases hfigure with
  | whole hdigits => exact .whole hdigits hletters hkind
  | fractional hdecimal =>
    rw [decimalKind?_fractional _ false] at hkind
    exact .fractional hdecimal hletters hkind

/-- The forms and the numbers are the same texts, with the same kinds. -/
theorem numberForm_iff {kind : LiteralKind} {text : List Char} :
    NumberForm kind text ↔ Numeral kind text := by
  constructor
  · rintro (⟨hmark, hne, hdigits, hletters⟩ | ⟨hfigure, hletters⟩)
    · exact .hex hmark ⟨hne, fun c hc => isHexDigit_iff.mpr (hdigits c hc)⟩ hletters
    · obtain ⟨suffix?, hmarks, hkind⟩ := suffixed_iff.mp hletters
      exact numeral_of_figure hfigure hmarks hkind
  · intro h
    cases h with
    | whole hdigits hmarks hkind =>
      exact .decimal (.mk (.whole hdigits) (suffixed_iff.mpr ⟨_, hmarks, hkind⟩))
    | fractional hdecimal hmarks hkind =>
      rw [decimalKind?_fractional false (needlessZero _)] at hkind
      exact .decimal (.mk (.fractional hdecimal) (suffixed_iff.mpr ⟨_, hmarks, hkind⟩))
    | hex hmark hdigits hletters =>
      exact .hex (.mk hmark hdigits.ne_nil (fun c hc => isHexDigit_iff.mp (hdigits.all c hc))
        hletters)

/-! ## The kinds of numbers -/

theorem NumberForm.kind_mem {kind : LiteralKind} {text : List Char} (h : NumberForm kind text) :
    kind ∈ numberKinds := by
  rcases h with - | ⟨-, hletters⟩
  · decide
  · exact KindBehind.kind_mem hletters

/-- A text that has no character of the rest's beginning goes no further than the front. -/
theorem prefix_front {front other rest : List Char} (hother : other <+: front ++ rest)
    (hrest : ∀ c ∈ rest.head?, c ∉ other) : other <+: front := by
  rcases List.prefix_or_prefix_of_prefix hother (List.prefix_append front rest) with h | h
  · exact h
  · obtain ⟨extra, rfl⟩ := h
    cases extra with
    | nil => simp
    | cons c extra =>
      rw [List.prefix_append_right_inj] at hother
      obtain ⟨behind, rfl⟩ := hother
      exact absurd (by simp) (hrest c rfl)

/-- A figure does not go on into the suffix of another. -/
theorem Figure.prefix_figure {fractional other needless : Bool} {kind : LiteralKind}
    {figure front letters : List Char} (h : Figure fractional figure)
    (hletters : Suffixed other needless kind letters) (hbegins : figure <+: front ++ letters) :
    figure <+: front :=
  prefix_front hbegins fun c hc hmem =>
    (h.toLower c hmem).1 (hletters.toLower c (List.mem_of_mem_head? hc))

theorem DecimalForm.unique {kind other : LiteralKind} {text : List Char}
    (h : DecimalForm kind text) (hother : DecimalForm other text) : kind = other := by
  generalize htext : text = again at hother
  obtain @⟨fractional, _, figure, letters, hfigure, hletters⟩ := h
  obtain @⟨fractional', _, figure', letters', hfigure', hletters'⟩ := hother
  have hfront := hfigure.prefix_figure hletters' ⟨letters, htext⟩
  have hback := hfigure'.prefix_figure hletters ⟨letters', htext.symm⟩
  obtain rfl : figure = figure' := hfront.eq_of_length_le hback.length_le
  obtain rfl := List.append_cancel_left htext
  obtain rfl : fractional = fractional' := hfigure.fractional_eq.trans hfigure'.fractional_eq.symm
  exact KindBehind.unique hletters hletters'

theorem DecimalForm.toLower {kind : LiteralKind} {text : List Char} (h : DecimalForm kind text) :
    ∀ c ∈ text, c.toLower ≠ 'x' := by
  obtain ⟨hfigure, hletters⟩ := h
  intro c hc
  rcases List.mem_append.mp hc with hc | hc
  · exact (hfigure.toLower c hc).2
  · have hletter := hletters.toLower c hc
    intro hx
    rw [hx] at hletter
    exact absurd hletter (by decide)

theorem HexForm.not_decimal {kind : LiteralKind} {text : List Char} (h : HexForm text) :
    ¬DecimalForm kind text := by
  intro hdecimal
  obtain ⟨hmark, -, -, -⟩ := h
  have hlower := hdecimal.toLower _ (List.mem_cons_of_mem _ List.mem_cons_self)
  rcases hmark with rfl | rfl
  · exact hlower rfl
  · exact hlower rfl

/-- The form of a number decides its kind. -/
theorem NumberForm.unique {kind other : LiteralKind} {text : List Char} (h : NumberForm kind text)
    (hother : NumberForm other text) : kind = other := by
  rcases h with hhex | hdecimal
  · rcases hother with - | hdecimal
    · rfl
    · exact absurd hdecimal hhex.not_decimal
  · rcases hother with hhex | hother
    · exact absurd hdecimal hhex.not_decimal
    · exact hdecimal.unique hother

/-! ## The characters of numbers -/

theorem NumberForm.head {kind : LiteralKind} {text : List Char} (h : NumberForm kind text) :
    ∃ c others, text = c :: others ∧ BeginsNumber c := by
  rcases h with ⟨-, -, -, -⟩ | ⟨hfigure, -⟩
  · exact ⟨'0', _, rfl, .inl (by decide)⟩
  · obtain ⟨c, others, rfl, hc⟩ := hfigure.head
    exact ⟨c, _, List.cons_append, hc⟩

/-- The signs in numbers. -/
def numberSigns : List Char := ['.', '+', '-']

/-- The character is in no number: a number ends before it. -/
def EndsNumber (c : Char) : Prop := isWordPart c = false ∧ c ∉ numberSigns

theorem endsNumber_blank : EndsNumber ' ' := ⟨by decide, by decide⟩

theorem HexForm.isWordPart {text : List Char} (h : HexForm text) :
    ∀ c ∈ text, isWordPart c = true := by
  obtain ⟨hmark, -, hdigits, hletters⟩ := h
  intro c hc
  rcases List.mem_cons.mp hc with rfl | hc
  · decide
  · rcases List.mem_cons.mp hc with rfl | hc
    · rcases hmark with rfl | rfl
      · decide
      · decide
    · rcases List.mem_append.mp hc with hc | hc
      · exact of_isHexDigit (p := fun d => Grammar.isWordPart d = true)
          (isHexDigit_iff.mpr (hdigits c hc)) (by decide)
      · rcases hletters with rfl | hlong
        · cases hc
        · have hsuffixed : Suffixed false false .long _ := hlong ▸ KindBehind.long
          exact hsuffixed.isWordPart c hc

theorem NumberForm.mem {kind : LiteralKind} {text : List Char} (h : NumberForm kind text) :
    ∀ c ∈ text, isWordPart c = true ∨ c ∈ numberSigns := by
  intro c hc
  rcases h with hhex | ⟨hfigure, hletters⟩
  · exact .inl (hhex.isWordPart c hc)
  · rcases List.mem_append.mp hc with hc | hc
    · exact hfigure.of_mem (p := fun d => isWordPart d = true ∨ d ∈ numberSigns) hc (by decide)
        (by decide)
    · exact .inl (hletters.isWordPart c hc)

theorem EndsNumber.not_mem {c : Char} (h : EndsNumber c) {text : List Char}
    (htext : IsNumber text) : c ∉ text := by
  obtain ⟨kind, hform⟩ := htext
  intro hc
  rcases hform.mem c hc with hpart | hsign
  · rw [h.1] at hpart
    cases hpart
  · exact h.2 hsign

end EntityQuery.Grammar

import EntityQuery.Proofs.LoweredPhrase
import EntityQuery.Proofs.SpelledTokens
import EntityQuery.Text.Position

/-!
# Tokens in small letters

A text in small letters has the tokens of the text, in small letters: no capital letter is told from
its small one by what is asked of a character, and what is asked of a word is asked of the word in
small letters.

* `Caseless`: what is told of a character does not depend on its case.
* `trimStart_foldCase`, `dropKeyword?_foldCase`, `dropSign?_foldCase`, `takeWord?_foldCase`,
  `literal?_foldCase`: blanks, keywords, signs, words and literals of the text in small letters.
-/

namespace EntityQuery.Text

/-! ## Characters -/

/-- The capital letters of ASCII. -/
def capitals : List Char := "ABCDEFGHIJKLMNOPQRSTUVWXYZ".toList

theorem mem_capitals_or_toLower (c : Char) : c ∈ capitals ∨ c.toLower = c := by
  by_cases h : c.val ≥ 'A'.val ∧ c.val ≤ 'Z'.val
  · have hlow : 65 ≤ c.toNat := UInt32.le_iff_toNat_le.mp h.1
    have hhigh : c.toNat ≤ 90 := UInt32.le_iff_toNat_le.mp h.2
    have hall : ∀ n < 26, Char.ofNat (65 + n) ∈ capitals := by decide
    have hmem := hall (c.toNat - 65) (by omega)
    rw [Nat.add_sub_cancel' hlow, Char.ofNat_toNat] at hmem
    exact .inl hmem
  · exact .inr (dif_neg h)

/-- What is told of a character does not depend on its case. -/
def Caseless {α : Type} (f : Char → α) : Prop := ∀ c, f c.toLower = f c

/-- Only the capital letters have to be looked at. -/
theorem caseless_of {α : Type} [DecidableEq α] {f : Char → α}
    (h : capitals.all (fun c => f c.toLower = f c) = true) : Caseless f := by
  intro c
  rcases mem_capitals_or_toLower c with hcapital | hsmall
  · exact of_decide_eq_true (List.all_eq_true.mp h c hcapital)
  · rw [hsmall]

theorem caseless_toLower : Caseless Char.toLower := caseless_of rfl

theorem caseless_isBlank : Caseless isBlank := caseless_of rfl

theorem caseless_isAlpha : Caseless Char.isAlpha := caseless_of rfl

theorem caseless_isDigit : Caseless Char.isDigit := caseless_of rfl

theorem caseless_utf8Size : Caseless Char.utf8Size := caseless_of rfl

/-- A character that is no letter is in no other case. -/
theorem toLower_eq_iff {s : Char} (h : s.isAlpha = false) (c : Char) : c.toLower = s ↔ c = s := by
  have hletters : capitals.all Char.isAlpha = true := rfl
  rcases mem_capitals_or_toLower c with hcapital | hsmall
  · have hletter : c.isAlpha = true := List.all_eq_true.mp hletters c hcapital
    constructor
    · rintro rfl
      exact absurd (hletter.symm.trans ((caseless_isAlpha c).symm.trans h)) Bool.noConfusion
    · rintro rfl
      exact absurd (hletter.symm.trans h) Bool.noConfusion
  · rw [hsmall]

/-! ## Texts -/

@[simp] theorem foldCase_foldCase (text : List Char) :
    foldCase (foldCase text) = foldCase text := by
  simp [foldCase, caseless_toLower _]

@[simp] theorem foldCase_isEmpty (text : List Char) : (foldCase text).isEmpty = text.isEmpty := by
  cases text <;> rfl

theorem foldCase_takeWhile {test : Char → Bool} (h : Caseless test) (text : List Char) :
    (foldCase text).takeWhile test = foldCase (text.takeWhile test) := by
  have htest : test ∘ Char.toLower = test := funext h
  rw [foldCase, List.takeWhile_map, htest, foldCase]

theorem foldCase_dropWhile {test : Char → Bool} (h : Caseless test) (text : List Char) :
    (foldCase text).dropWhile test = foldCase (text.dropWhile test) := by
  have htest : test ∘ Char.toLower = test := funext h
  rw [foldCase, List.dropWhile_map, htest, foldCase]

theorem foldCase_head_any {test : Char → Bool} (h : Caseless test) (text : List Char) :
    (foldCase text).head?.any test = text.head?.any test := by
  cases text with
  | nil => rfl
  | cons c text => exact h c

@[simp] theorem trimStart_foldCase (text : List Char) :
    trimStart (foldCase text) = foldCase (trimStart text) :=
  foldCase_dropWhile caseless_isBlank text

/-! ## Places -/

@[simp] theorem utf8Length_foldCase (text : List Char) :
    utf8Length (foldCase text) = utf8Length text := by
  induction text with
  | nil => rfl
  | cons c text ih => rw [foldCase_cons, utf8Length_cons, utf8Length_cons, caseless_utf8Size, ih]

/-- Lines end at characters that are no letters. -/
theorem advance_foldCase (offset start line column : Nat) (text : List Char) :
    advance offset start line column (foldCase text) = advance offset start line column text := by
  induction text generalizing start line column with
  | nil => rfl
  | cons c text ih =>
    simp only [foldCase_cons, advance, toLower_eq_iff (s := '\n') (by decide), caseless_utf8Size c,
      ih]

@[simp] theorem lineColumn_foldCase (text : List Char) (offset : Nat) :
    lineColumn (foldCase text) offset = lineColumn text offset :=
  advance_foldCase offset 0 1 1 text

/-! ## Texts as strings -/

@[simp] theorem lowered_toList (word : String) : (lowered word).toList = foldCase word.toList :=
  String.toList_ofList

@[simp] theorem lowered_ofList (letters : List Char) :
    lowered (String.ofList letters) = String.ofList (foldCase letters) := by
  rw [lowered, String.toList_ofList]

@[simp] theorem lowered_lowered (word : String) : lowered (lowered word) = lowered word := by
  rw [lowered, lowered_toList, foldCase_foldCase, ← lowered]

theorem lowered_append (front rest : String) :
    lowered (front ++ rest) = lowered front ++ lowered rest := by
  simp [lowered, String.toList_append]

/-- A search depends on what is found of the members only. -/
theorem findSome?_congr {α β : Type} {f g : α → Option β} {values : List α}
    (h : ∀ value ∈ values, f value = g value) : values.findSome? f = values.findSome? g := by
  induction values with
  | nil => rfl
  | cons first rest ih =>
    obtain ⟨hfirst, hrest⟩ := List.forall_mem_cons.mp h
    rw [List.findSome?_cons, List.findSome?_cons, hfirst, ih hrest]

/-! ## Keywords and words -/

theorem dropWord?_foldCase (word text : List Char) :
    dropWord? word (foldCase text) = (dropWord? word text).map foldCase := by
  fun_induction dropWord? word text with
  | case1 text => simp [dropWord?]
  | case2 => rfl
  | case3 w word c text hc ih => simp [dropWord?, caseless_toLower c, hc, ih]
  | case4 w word c text hc => simp [dropWord?, caseless_toLower c, hc]

end EntityQuery.Text

namespace EntityQuery

/-- Points have no case, so the name that is written has the parts in small letters. -/
theorem DottedName.lowered_text (name : DottedName) :
    name.lowered.text = Text.lowered name.text := by
  have hpoint : Text.lowered "." = "." := by decide
  obtain ⟨parts⟩ := name
  change String.intercalate "." (parts.map Text.lowered)
    = Text.lowered (String.intercalate "." parts)
  induction parts with
  | nil => rfl
  | cons first others ih =>
    cases others with
    | nil => rfl
    | cons second others =>
      rw [List.map_cons] at ih
      rw [List.map_cons, List.map_cons, String.intercalate_cons_cons, ih,
        String.intercalate_cons_cons, Text.lowered_append, Text.lowered_append, hpoint]

namespace Grammar

open EntityQuery.Text
open EntityQuery.Phrase (Literal LiteralKind)

theorem caseless_isWordPart : Caseless isWordPart := caseless_of rfl

theorem caseless_isWordStart : Caseless isWordStart := caseless_of rfl

theorem caseless_isHexDigit : Caseless isHexDigit := caseless_of rfl

@[simp] theorem endsWord_foldCase (text : List Char) :
    endsWord (foldCase text) = endsWord text := by
  rw [endsWord, foldCase_head_any caseless_isWordPart, ← endsWord]

theorem dropKeyword?_foldCase (word text : List Char) :
    dropKeyword? word (foldCase text) = (dropKeyword? word text).map foldCase := by
  unfold dropKeyword?
  rw [dropWord?_foldCase]
  cases dropWord? word text with
  | none => rfl
  | some rest =>
    simp only [Option.map_some, endsWord_foldCase]
    split <;> rfl

theorem takeWord?_foldCase (text : List Char) :
    takeWord? (foldCase text) = (takeWord? text).map (Prod.map lowered foldCase) := by
  cases text with
  | nil => rfl
  | cons c text =>
    rw [foldCase_cons, takeWord?, takeWord?, caseless_isWordStart c,
      foldCase_takeWhile caseless_isWordPart, foldCase_dropWhile caseless_isWordPart]
    split
    · rw [Option.map_some, Prod.map_apply, lowered_ofList, foldCase_cons]
    · rfl

@[simp] theorem isReserved_lowered (word : String) :
    isReserved (lowered word) = isReserved word := by
  rw [isReserved, lowered_lowered, ← isReserved]

/-! ## Signs -/

/-- No character of the sign is a letter. -/
def Unlettered (sign : String) : Prop := ∀ c ∈ sign.toList, c.isAlpha = false

instance (sign : String) : Decidable (Unlettered sign) := List.decidableBAll _ _

theorem dropSign?_foldCase {sign : List Char} (h : ∀ c ∈ sign, c.isAlpha = false)
    (text : List Char) : dropSign? sign (foldCase text) = (dropSign? sign text).map foldCase := by
  fun_induction dropSign? sign text with
  | case1 text => rfl
  | case2 => rfl
  | case3 sign c text ih =>
    obtain ⟨hc, hsign⟩ := List.forall_mem_cons.mp h
    rw [foldCase_cons, dropSign?, if_pos ((toLower_eq_iff hc c).mpr rfl), ih hsign]
  | case4 s sign c text hne =>
    obtain ⟨hs, -⟩ := List.forall_mem_cons.mp h
    rw [foldCase_cons, dropSign?, if_neg fun heq => hne ((toLower_eq_iff hs c).mp heq)]
    rfl

/-! ## Literals -/

theorem quoted?_foldCase {quote : Char} (h : quote.isAlpha = false) (text : List Char) :
    quoted? quote (foldCase text) = (quoted? quote text).map (Prod.map foldCase foldCase) := by
  have hquote : quote.toLower = quote := (toLower_eq_iff h quote).mpr rfl
  fun_induction quoted? quote text with
  | case1 => rfl
  | case2 => simp [quoted?, hquote]
  | case3 rest ih => simp [quoted?, hquote, ih, Function.comp_def]
  | case4 d rest hd => simp [quoted?, hquote, toLower_eq_iff h, hd]
  | case5 d rest hd ih =>
    have hne : d.toLower ≠ quote := fun heq => hd ((toLower_eq_iff h d).mp heq)
    rw [foldCase_cons, quoted?_of_ne hne, ih]
    simp [Function.comp_def]

theorem afterSign_foldCase (text : List Char) :
    afterSign (foldCase text) = foldCase (afterSign text) := by
  have hplus := toLower_eq_iff (s := '+') (by decide)
  have hminus := toLower_eq_iff (s := '-') (by decide)
  cases text with
  | nil => rfl
  | cons c text =>
    by_cases hp : c = '+'
    · subst hp; rfl
    · by_cases hm : c = '-'
      · subst hm; rfl
      · simp [afterSign, hp, hm, hplus, hminus]

theorem dropExponent?_foldCase (text : List Char) :
    dropExponent? (foldCase text) = (dropExponent? text).map foldCase := by
  have hletter : Caseless fun c => decide (c = 'e' ∨ c = 'E') := caseless_of rfl
  cases text with
  | nil => rfl
  | cons c text =>
    rw [foldCase_cons, dropExponent?_cons, dropExponent?_cons]
    simp only [decide_eq_decide.mp (hletter c), afterSign_foldCase,
      foldCase_head_any caseless_isDigit, foldCase_dropWhile caseless_isDigit]
    split
    · split <;> rfl
    · rfl

theorem takeSuffix?_foldCase (text : List Char) :
    takeSuffix? (foldCase text) = (takeSuffix? text).map (Prod.map id foldCase) := by
  unfold takeSuffix?
  rw [List.map_findSome?]
  refine findSome?_congr fun suffix _ => ?_
  rw [dropWord?_foldCase, Function.comp_apply, Option.map_map, Option.map_map]
  rfl

theorem suffixEnd_foldCase (fractional octal : Bool) (text : List Char) :
    suffixEnd fractional octal (foldCase text)
      = (suffixEnd fractional octal text).map (Prod.map id foldCase) := by
  unfold suffixEnd
  rw [takeSuffix?_foldCase]
  cases takeSuffix? text <;> simp [Function.comp_def]

theorem numeralEnd_foldCase (pointed : Bool) (whole text : List Char) :
    numeralEnd pointed whole (foldCase text)
      = (numeralEnd pointed whole text).map (Prod.map id foldCase) := by
  unfold numeralEnd
  rw [dropExponent?_foldCase]
  cases dropExponent? text <;> simp [suffixEnd_foldCase]

/-- Digits have no case. -/
theorem takeWhile_isDigit_foldCase (text : List Char) :
    (foldCase text).takeWhile Char.isDigit = text.takeWhile Char.isDigit := by
  have hdigit : ∀ c ∈ text.takeWhile Char.isDigit, c.toLower = c := by
    intro c hc
    have hnone : capitals.any Char.isDigit = false := rfl
    rcases mem_capitals_or_toLower c with hcapital | hsmall
    · exact absurd (List.mem_takeWhile_imp hc) (List.any_eq_false.mp hnone c hcapital)
    · exact hsmall
  rw [foldCase_takeWhile caseless_isDigit]
  exact (List.map_congr_left hdigit).trans (List.map_id _)

theorem decimalNumeral?_foldCase (text : List Char) :
    decimalNumeral? (foldCase text) = (decimalNumeral? text).map (Prod.map id foldCase) := by
  have hpoint : ∀ behind : List Char,
      (foldCase behind).head? = some '.' ↔ behind.head? = some '.' := by
    intro behind
    cases behind with
    | nil => rfl
    | cons c behind => simp [toLower_eq_iff (s := '.') (by decide)]
  have hdrop : ∀ behind : List Char, (foldCase behind).drop 1 = foldCase (behind.drop 1) :=
    fun behind => (List.map_drop).symm
  rw [decimalNumeral?_eq, decimalNumeral?_eq]
  simp only [takeWhile_isDigit_foldCase, foldCase_dropWhile caseless_isDigit, hpoint, hdrop,
    numeralEnd_foldCase]
  split
  · split <;> rfl
  · split <;> rfl

theorem hexNumeral?_foldCase (text : List Char) :
    hexNumeral? (foldCase text) = (hexNumeral? text).map (Prod.map id foldCase) := by
  unfold hexNumeral?
  simp only [foldCase_head_any caseless_isHexDigit, foldCase_dropWhile caseless_isHexDigit,
    dropWord?_foldCase]
  split
  · cases dropWord? ['l'] (text.dropWhile isHexDigit) <;> rfl
  · rfl

theorem isPrefixed_foldCase (text : List Char) : isPrefixed (foldCase text) = isPrefixed text := by
  have hmark : Caseless fun c => (c = 'x' || c = 'X' : Bool) := caseless_of rfl
  match text with
  | [] => rfl
  | [_] => rfl
  | c :: d :: text =>
    simp only [foldCase_cons, isPrefixed, toLower_eq_iff (s := '0') (by decide), hmark d]

theorem numeral?_foldCase (text : List Char) :
    numeral? (foldCase text) = (numeral? text).map (Prod.map id foldCase) := by
  have hsmall := isPrefixed_foldCase text
  cases hprefixed : isPrefixed text with
  | false =>
    rw [hprefixed] at hsmall
    rw [numeral?_plain hsmall, numeral?_plain hprefixed, decimalNumeral?_foldCase]
  | true =>
    rw [hprefixed] at hsmall
    have hdrop : (foldCase text).drop 2 = foldCase (text.drop 2) := (List.map_drop).symm
    rw [numeral?_prefixed hsmall, numeral?_prefixed hprefixed, hdrop, hexNumeral?_foldCase]

/-- What is read of a text has as many characters in small letters. -/
theorem numericLiteral?_foldCase (text : List Char) :
    numericLiteral? (foldCase text)
      = (numericLiteral? text).map (Prod.map Literal.lowered foldCase) := by
  unfold numericLiteral?
  rw [numeral?_foldCase]
  cases numeral? text with
  | none => rfl
  | some read =>
    obtain ⟨kind, rest⟩ := read
    simp only [Option.map_some, Prod.map_apply, endsWord_foldCase, foldCase_length, id]
    split
    · simp [Literal.lowered, foldCase, List.map_take]
    · rfl

theorem wordLiteral?_foldCase (text : List Char) :
    wordLiteral? (foldCase text) = (wordLiteral? text).map (Prod.map Literal.lowered foldCase) := by
  have hsmall : ∀ entry ∈ wordLiterals, lowered entry.1 = entry.1 := by decide
  unfold wordLiteral?
  rw [List.map_findSome?]
  refine findSome?_congr fun entry hentry => ?_
  rw [dropKeyword?_foldCase, Function.comp_apply, Option.map_map, Option.map_map]
  congr 1
  funext rest
  simp [Literal.lowered, hsmall entry hentry]

theorem quotedLiteral?_foldCase {quote : Char} (h : quote.isAlpha = false) (text : List Char) :
    quotedLiteral? quote (foldCase text)
      = (quotedLiteral? quote text).map (Prod.map Literal.lowered foldCase) := by
  unfold quotedLiteral?
  rw [quoted?_foldCase h, Option.map_map, Option.map_map]
  congr 1
  funext read
  simp [Literal.lowered, quotedKind]

theorem literal?_foldCase (text : List Char) :
    literal? (foldCase text) = (literal? text).map (Prod.map Literal.lowered foldCase) := by
  cases text with
  | nil => rfl
  | cons c text =>
    have hsingle := toLower_eq_iff (s := singleQuote) (by decide) c
    have hdouble := toLower_eq_iff (s := doubleQuote) (by decide) c
    have hword := wordLiteral?_foldCase (c :: text)
    have hnumber := numericLiteral?_foldCase (c :: text)
    rw [foldCase_cons] at hword hnumber
    rw [foldCase_cons]
    unfold literal?
    simp only [hsingle, hdouble, hword, hnumber]
    split
    · rename_i hquote
      have hsame : c.toLower = c := by
        rcases (by simpa using hquote : c = singleQuote ∨ c = doubleQuote) with rfl | rfl
        · exact hsingle.mpr rfl
        · exact hdouble.mpr rfl
      have halpha : c.isAlpha = false := by
        rcases (by simpa using hquote : c = singleQuote ∨ c = doubleQuote) with rfl | rfl <;> decide
      rw [hsame, quotedLiteral?_foldCase halpha]
    · cases wordLiteral? (c :: text) <;> rfl

end Grammar
end EntityQuery

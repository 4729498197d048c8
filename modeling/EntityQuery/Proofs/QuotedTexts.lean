import EntityQuery.Proofs.Spelling

/-!
# Quoted texts

Between quotes a text stands with each of its quotes doubled, and reading undoes exactly this. The
closing quote is the first that is not one of a pair: whatever stands behind it, other than a
further quote, is left alone. Where there is no such quote nothing is read.

* `doubled`: the text between the quotes.
* `quoted?_eq_some_iff`: what is read up to the closing quote, and where that quote stands.
* `literalToken_quoted`: the literal that a quoted text is read as, and when there is none.
-/

namespace EntityQuery.Grammar

open EntityQuery.Phrase (LiteralKind)

/-- Quotes of the content are written twice. -/
def doubled (quote : Char) (content : List Char) : List Char :=
  content.flatMap fun c => if c = quote then [c, c] else [c]

theorem quoted_toList (quote : Char) (text : String) :
    (Phrase.quoted quote text).toList = quote :: (doubled quote text.toList ++ [quote]) := by
  rw [Phrase.quoted, String.toList_ofList]
  rfl

section

variable {quote : Char} {text content rest : List Char}

theorem doubled_cons_quote (quote : Char) (content : List Char) :
    doubled quote (quote :: content) = quote :: quote :: doubled quote content := by
  simp [doubled]

theorem doubled_cons_of_ne {c : Char} (h : c ≠ quote) (content : List Char) :
    doubled quote (c :: content) = c :: doubled quote content := by
  simp [doubled, h]

theorem quoted?_closes (hcloses : rest.head? ≠ some quote) :
    quoted? quote (quote :: rest) = some ([], rest) := by
  cases rest with
  | nil => simp [quoted?]
  | cons c rest =>
    have hc : c ≠ quote := by simpa using hcloses
    simp [quoted?, hc]

theorem quoted?_of_ne {c : Char} (h : c ≠ quote) (text : List Char) :
    quoted? quote (c :: text) = (quoted? quote text).map fun read => (c :: read.1, read.2) := by
  cases text <;> simp [quoted?, h]

theorem quoted?_doubled (hrest : rest.head? ≠ some quote) (content : List Char) :
    quoted? quote (doubled quote content ++ quote :: rest) = some (content, rest) := by
  induction content with
  | nil => exact quoted?_closes hrest
  | cons c content ih =>
    by_cases hc : c = quote
    · subst hc
      rw [doubled_cons_quote]
      simp [quoted?, ih]
    · rw [doubled_cons_of_ne hc, List.cons_append, quoted?_of_ne hc, ih]
      rfl

/-- What has been read stands in the text with its quotes doubled, and a single quote behind it. -/
theorem text_of_quoted? (h : quoted? quote text = some (content, rest)) :
    text = doubled quote content ++ quote :: rest ∧ rest.head? ≠ some quote := by
  fun_induction quoted? quote text generalizing content with
  | case1 => cases h
  | case2 =>
    cases h
    exact ⟨rfl, by simp⟩
  | case3 text ih =>
    obtain ⟨read, hread, heq⟩ := Option.map_eq_some_iff.mp h
    cases heq
    obtain ⟨htext, hsingle⟩ := ih hread
    rw [doubled_cons_quote, htext]
    exact ⟨rfl, hsingle⟩
  | case4 d text hd =>
    cases h
    exact ⟨rfl, by simpa using hd⟩
  | case5 c text hc ih =>
    obtain ⟨read, hread, heq⟩ := Option.map_eq_some_iff.mp h
    cases heq
    obtain ⟨htext, hsingle⟩ := ih hread
    rw [doubled_cons_of_ne hc, htext]
    exact ⟨rfl, hsingle⟩

theorem quoted?_eq_some_iff : quoted? quote text = some (content, rest) ↔
    text = doubled quote content ++ quote :: rest ∧ rest.head? ≠ some quote := by
  constructor
  · exact text_of_quoted?
  · rintro ⟨rfl, hsingle⟩
    exact quoted?_doubled hsingle content

theorem quoted?_eq_none_iff : quoted? quote text = none ↔
    ¬∃ content rest, text = doubled quote content ++ quote :: rest
      ∧ rest.head? ≠ some quote := by
  rw [Option.eq_none_iff_forall_ne_some, Prod.forall]
  simp only [ne_eq, quoted?_eq_some_iff, not_exists]

end

/-- The character opens a quoted text. -/
def isQuote (c : Char) : Bool := c = singleQuote || c = doubleQuote

theorem literal?_quote {c : Char} (h : isQuote c = true) (text : List Char) :
    literal? (c :: text) = quotedLiteral? c text := by
  have hquote : (c = singleQuote || c = doubleQuote) = true := h
  rw [literal?, if_pos hquote]

/-- What a text behind an opening quote is read as. -/
theorem literalToken_quote {quote : Char} (h : isQuote quote = true) (text : List Char) :
    literalToken (quote :: text) =
      match quoted? quote text with
      | some (content, rest) => .ok ⟨quotedKind quote content, String.ofList content⟩ rest
      | none => .fail (quote :: text) := by
  unfold literalToken
  rw [literal?_quote h, quotedLiteral?]
  cases quoted? quote text <;> rfl

/-- A text whose quotes are doubled is read back between quotes, up to the closing one; between
single quotes a single character is a character. Where a quote is never closed, nothing is read. -/
theorem literalToken_quoted {quote : Char} (hquote : quote = singleQuote ∨ quote = doubleQuote) :
    (∀ (content : String) (rest : List Char), rest.head? ≠ some quote →
      literalToken (quote :: (doubled quote content.toList ++ quote :: rest)) =
        .ok ⟨if quote = singleQuote ∧ content.length = 1 then .character else .string, content⟩
          rest)
    ∧ ∀ text : List Char, literalToken (quote :: text) = .fail (quote :: text) ↔
      ¬∃ content rest, text = doubled quote content ++ quote :: rest
        ∧ rest.head? ≠ some quote := by
  have hopens : isQuote quote = true := by simpa [isQuote] using hquote
  constructor
  · intro content rest hrest
    have hread := quoted?_doubled hrest content.toList
    rw [literalToken_quote hopens, hread]
    simp [quotedKind, String.length_toList]
  · intro text
    rw [← quoted?_eq_none_iff, literalToken_quote hopens]
    cases quoted? quote text <;> simp

/-- An apostrophe is doubled, and the pair at the end of a text does not close it. -/
theorem literalToken_quoted_apostrophe :
    (singleQuote = singleQuote ∨ singleQuote = doubleQuote)
      ∧ " or".toList.head? ≠ some singleQuote
      ∧ literalToken "'l''été' or".toList = .ok ⟨.string, "l'été"⟩ " or".toList
      ∧ ¬∃ content rest, "l''été''".toList = doubled singleQuote content ++ singleQuote :: rest
        ∧ rest.head? ≠ some singleQuote := by
  have hquote : singleQuote = singleQuote ∨ singleQuote = doubleQuote := .inl rfl
  have hrest : " or".toList.head? ≠ some singleQuote := by decide
  have htext : "'l''été' or".toList
      = singleQuote :: (doubled singleQuote "l'été".toList ++ singleQuote :: " or".toList) := by
    decide
  have hlength : ¬(singleQuote = singleQuote ∧ "l'été".length = 1) := by decide
  have hread := (literalToken_quoted hquote).1 "l'été" " or".toList hrest
  have hfail : literalToken (singleQuote :: "l''été''".toList)
      = .fail (singleQuote :: "l''été''".toList) := by
    have hnone : quoted? singleQuote "l''été''".toList = none := by decide +kernel
    rw [literalToken_quote (by decide), hnone]
  have hopen := ((literalToken_quoted hquote).2 "l''été''".toList).mp hfail
  rw [← htext, if_neg hlength] at hread
  exact ⟨hquote, hrest, hread, hopen⟩

end EntityQuery.Grammar

import EntityQuery.Grammar.Predicate
import EntityQuery.Proofs.FoldedTokens

/-!
# The extent of a token

Words, signs, numbers and comparison operators end before the next blank or quote. What their
readers answer is decided by the characters up to there, and is the same whatever follows. Each of
them reads at least one character.

* `breaks`, `Stops`: the characters that end such a token, and the texts that begin with one.
* `Left`: what is left of a text, with or without some of it being read.
* `Local`: an answer that is decided by the characters up to the next blank or quote.
* `local_sign`, `local_keyword`, `local_word`, `local_comparison`, `local_numeric`: the tokens.
* `left_literal`: a literal is not empty.
-/

namespace EntityQuery.Grammar

open EntityQuery.Phrase EntityQuery.Text

/-! ## What is left of a text -/

/-- `rest` is an end of the text; if some of the text is said to be read, it is a shorter one. -/
def Left (moved : Bool) (text rest : List Char) : Prop :=
  rest <:+ text ∧ (moved = true → rest.length < text.length)

section

variable {moved further : Bool} {text mid rest : List Char}

theorem Left.refl (text : List Char) : Left false text text :=
  ⟨List.suffix_refl text, fun h => by cases h⟩

theorem Left.length_le (h : Left moved text rest) : rest.length ≤ text.length := h.1.length_le

theorem Left.trans (hfirst : Left moved text mid) (hsecond : Left further mid rest) :
    Left (moved || further) text rest := by
  refine ⟨hsecond.1.trans hfirst.1, ?_⟩
  intro h
  have hle := hfirst.length_le
  have hle' := hsecond.length_le
  rcases Bool.or_eq_true_iff.mp h with h | h
  · have := hfirst.2 h
    omega
  · have := hsecond.2 h
    omega

theorem Left.weaken (h : Left moved text rest) (himp : further = true → moved = true) :
    Left further text rest :=
  ⟨h.1, fun hfurther => h.2 (himp hfurther)⟩

theorem left_append {front : List Char} (hfront : front ≠ []) (rest : List Char) :
    Left true (front ++ rest) rest := by
  refine ⟨List.suffix_append front rest, ?_⟩
  intro _
  have := List.length_pos_iff.mpr hfront
  simp only [List.length_append]
  omega

theorem left_cons (c : Char) (text : List Char) : Left true (c :: text) text :=
  left_append (List.cons_ne_nil c []) text

theorem left_trimStart (text : List Char) : Left false text (trimStart text) :=
  ⟨List.dropWhile_suffix _, fun h => by cases h⟩

end

/-! ## Where tokens end -/

/-- The character is blank or a quote. -/
def breaks (c : Char) : Bool := isBlank c || c = singleQuote || c = doubleQuote

/-- The text is empty or begins with a blank or a quote. -/
def Stops (rest : List Char) : Prop := ∀ c ∈ rest.head?, breaks c = true

theorem stops_nil : Stops [] := fun _ hc => by cases hc

theorem breaks_cases {c : Char} (h : breaks c = true) :
    isBlank c = true ∨ c = singleQuote ∨ c = doubleQuote := by
  simpa [breaks, or_assoc] using h

theorem isNumeral_of_isBlank {c : Char} (h : isBlank c = true) : isNumeral c = false := by
  have hapart : (numeralRanges.all fun a => blankRanges.all fun b =>
      Nat.blt a.2 b.1 || Nat.blt b.2 a.1) = true := by
    decide +kernel
  unfold isBlank at h
  split at h
  · rename_i hascii
    have hpoint : c.toNat = 32 ∨ 9 ≤ c.toNat ∧ c.toNat ≤ 13 := by simpa using h
    rw [isNumeral, if_pos hascii]
    cases hdigit : c.isDigit with
    | false => rfl
    | true =>
      have := toNat_of_isDigit hdigit
      omega
  · rename_i hascii
    rw [isNumeral, if_neg hascii]
    exact holds_of_apart hapart h

theorem isWordPart_of_breaks {c : Char} (h : breaks c = true) : isWordPart c = false := by
  rcases breaks_cases h with hblank | rfl | rfl
  · have hunderscore : c ≠ '_' := by
      rintro rfl
      exact absurd hblank (by decide)
    have hdollar : c ≠ '$' := by
      rintro rfl
      exact absurd hblank (by decide)
    simp [isWordPart, isLetter_of_isBlank hblank, isNumeral_of_isBlank hblank, hunderscore,
      hdollar]
  · decide +kernel
  · decide +kernel

/-- No character of the word is one that ends it. -/
def Unbroken (word : List Char) : Prop := ∀ c ∈ word, breaks c = false

instance (word : List Char) : Decidable (Unbroken word) := List.decidableBAll _ _

section

variable {rest : List Char} (hrest : Stops rest)
include hrest

/-- A scan for characters that do not end tokens does not go beyond the end of its token. -/
theorem Stops.scan {test : Char → Bool} (htest : ∀ c, breaks c = true → test c = false)
    (front : List Char) :
    (front ++ rest).takeWhile test = front.takeWhile test
      ∧ (front ++ rest).dropWhile test = front.dropWhile test ++ rest := by
  induction front with
  | nil =>
    have hhead : ∀ c ∈ rest.head?, test c = false := fun c hc => htest c (hrest c hc)
    exact takeWhile_front (fun c hc => by cases hc) hhead
  | cons c front ih =>
    simp only [List.cons_append, List.takeWhile_cons, List.dropWhile_cons]
    split
    · exact ⟨congrArg (c :: ·) ih.1, ih.2⟩
    · exact ⟨rfl, rfl⟩

theorem Stops.head_any {test : Char → Bool} (htest : ∀ c, breaks c = true → test c = false)
    (front : List Char) : (front ++ rest).head?.any test = front.head?.any test := by
  cases front with
  | nil =>
    cases rest with
    | nil => rfl
    | cons c rest => simp [htest c (hrest c rfl)]
  | cons c front => rfl

theorem Stops.endsWord (front : List Char) : endsWord (front ++ rest) = endsWord front := by
  unfold Grammar.endsWord
  rw [hrest.head_any fun c => isWordPart_of_breaks]

end

/-! ## Local answers -/

/-- What is answered is decided by the characters up to the next blank or quote, and something is
read. -/
structure Local {α : Type} (read? : List Char → Option (α × List Char)) : Prop where
  apart : ∀ front rest, Stops rest →
    read? (front ++ rest) = (read? front).map (Prod.map id (· ++ rest))
  left : ∀ {text value rest}, read? text = some (value, rest) → Left true text rest

/-- A part of a token that is dropped is decided by the characters up to the next blank or quote. -/
def Extends (drop? : List Char → Option (List Char)) : Prop :=
  ∀ front rest, Stops rest → drop? (front ++ rest) = (drop? front).map (· ++ rest)

/-- The text after a token, with what the token stands for. -/
def standing {α : Type} (value : α) (drop? : List Char → Option (List Char)) (text : List Char) :
    Option (α × List Char) :=
  (drop? text).map fun rest => (value, rest)

theorem local_standing {α : Type} {drop? : List Char → Option (List Char)}
    (hextends : Extends drop?) (hleft : ∀ {text rest}, drop? text = some rest → Left true text rest)
    (value : α) : Local (standing value drop?) := by
  constructor
  · intro front rest hrest
    unfold standing
    rw [hextends front rest hrest, Option.map_map, Option.map_map]
    rfl
  · intro text value' rest h
    obtain ⟨after, hafter, heq⟩ := Option.map_eq_some_iff.mp h
    cases heq
    exact hleft hafter

/-- The first of several tokens that is there. -/
theorem local_findSome {α β : Type} {read? : β → List Char → Option (α × List Char)}
    {entries : List β} (h : ∀ entry ∈ entries, Local (read? entry)) :
    Local fun text => entries.findSome? fun entry => read? entry text := by
  constructor
  · intro front rest hrest
    rw [List.map_findSome?]
    refine findSome?_congr fun entry hentry => ?_
    rw [(h entry hentry).apart front rest hrest]
    rfl
  · intro text value rest hread
    obtain ⟨entry, hentry, hfound⟩ := List.exists_of_findSome?_eq_some hread
    exact (h entry hentry).left hfound

/-! ## Signs and words -/

theorem extends_dropSign? {sign : List Char} (h : Unbroken sign) : Extends (dropSign? sign) := by
  intro front rest hrest
  induction sign generalizing front with
  | nil => rfl
  | cons s sign ih =>
    obtain ⟨hs, hsign⟩ := List.forall_mem_cons.mp h
    cases front with
    | nil =>
      cases rest with
      | nil => rfl
      | cons c rest =>
        have hne : c ≠ s := by
          rintro rfl
          have hbreaks := hrest c rfl
          rw [hs] at hbreaks
          cases hbreaks
        show (if c = s then _ else none) = none
        rw [if_neg hne]
    | cons c front =>
      simp only [List.cons_append, dropSign?]
      split
      · exact ih hsign front
      · rfl

theorem dropSign?_eq_some {sign text rest : List Char} (h : dropSign? sign text = some rest) :
    text = sign ++ rest := by
  fun_induction dropSign? sign text with
  | case1 text => simpa using h
  | case2 => cases h
  | case3 s sign text ih => rw [ih h]; rfl
  | case4 => cases h

theorem extends_dropWord? {word : List Char} (h : ∀ c ∈ word, c.isLower = true) :
    Extends (dropWord? word) := by
  intro front rest hrest
  induction word generalizing front with
  | nil => rfl
  | cons w word ih =>
    obtain ⟨hw, hword⟩ := List.forall_mem_cons.mp h
    cases front with
    | nil =>
      cases rest with
      | nil => rfl
      | cons c rest =>
        have hne : (c.toLower == w) = false := by
          apply beq_false_of_ne
          rintro rfl
          have hpart : isWordPart c = true := by
            simp [isWordPart, isLetter_of_isAlpha (isAlpha_of_toLower hw)]
          rw [isWordPart_of_breaks (hrest c rfl)] at hpart
          cases hpart
        show (if c.toLower == w then _ else none) = none
        rw [hne]
        rfl
    | cons c front =>
      simp only [List.cons_append, dropWord?]
      split
      · exact ih hword front
      · rfl

theorem extends_dropKeyword? {word : List Char} (h : ∀ c ∈ word, c.isLower = true) :
    Extends (dropKeyword? word) := by
  intro front rest hrest
  unfold dropKeyword?
  rw [extends_dropWord? h front rest hrest]
  cases dropWord? word front with
  | none => rfl
  | some after =>
    simp only [Option.map_some, hrest.endsWord]
    split
    · rfl
    · rfl

theorem dropWord?_left {word text rest : List Char} (hword : word ≠ [])
    (h : dropWord? word text = some rest) : Left true text rest := by
  obtain ⟨front, rfl, hfront⟩ := dropWord?_eq_some h
  apply left_append
  rintro rfl
  exact hword hfront.symm

theorem dropKeyword?_left {word text rest : List Char} (hword : word ≠ [])
    (h : dropKeyword? word text = some rest) : Left true text rest := by
  unfold dropKeyword? at h
  split at h
  · rename_i after hafter
    split at h
    · cases h
      exact dropWord?_left hword hafter
    · cases h
  · cases h

/-- A sign is no empty text, and no blank and no quote is in it. -/
def IsSign (text : String) : Prop := text.toList ≠ [] ∧ Unbroken text.toList

instance (text : String) : Decidable (IsSign text) :=
  inferInstanceAs (Decidable (text.toList ≠ [] ∧ Unbroken text.toList))

theorem local_sign {α : Type} {sign : String} (h : IsSign sign) (value : α) :
    Local (standing value (dropSign? sign.toList)) := by
  refine local_standing (extends_dropSign? h.2) ?_ value
  intro text rest hdrop
  rw [dropSign?_eq_some hdrop]
  exact left_append h.1 rest

/-- A keyword is no empty word, and is made of small letters. -/
def IsKeyword (word : String) : Prop :=
  word.toList ≠ [] ∧ ∀ c ∈ word.toList, c.isLower = true

instance (word : String) : Decidable (IsKeyword word) :=
  @instDecidableAnd _ _ inferInstance (List.decidableBAll _ _)

theorem local_keyword {α : Type} {word : String} (h : IsKeyword word) (value : α) :
    Local (standing value (dropKeyword? word.toList)) :=
  local_standing (extends_dropKeyword? h.2) (fun hdrop => dropKeyword?_left h.1 hdrop) value

theorem local_word : Local takeWord? := by
  constructor
  · intro front rest hrest
    have hpart : ∀ c, breaks c = true → isWordPart c = false := fun c => isWordPart_of_breaks
    cases front with
    | nil =>
      cases rest with
      | nil => rfl
      | cons c rest =>
        have hstart : isWordStart c = false := by
          have hc := hpart c (hrest c rfl)
          simp only [isWordPart, Bool.or_eq_false_iff] at hc
          simp [isWordStart, hc.1.1.1, hc.1.2, hc.2]
        show (if isWordStart c then _ else none) = none
        rw [hstart]
        rfl
    | cons c front =>
      obtain ⟨htake, hdrop⟩ := hrest.scan hpart front
      simp only [List.cons_append, takeWord?, htake, hdrop]
      split
      · rfl
      · rfl
  · intro text word rest h
    obtain ⟨rfl, hword, -⟩ := takeWord?_eq_some h
    obtain ⟨c, letters, hform, -, -⟩ := hword.form
    apply left_append
    rw [hform]
    exact List.cons_ne_nil c letters

theorem local_comparison : Local fun text => comparisonSigns.findSome? fun entry =>
    standing entry.2 (dropSign? entry.1.toList) text := by
  have hsigns : ∀ entry ∈ comparisonSigns, IsSign entry.1 := by decide
  exact local_findSome fun entry hentry => local_sign (hsigns entry hentry) entry.2

/-! ## Numbers -/

/-- Digits, ASCII letters and signs lie between the characters that end a token. -/
theorem toNat_of_breaks {c : Char} (h : breaks c = true) : c.toNat < 40 ∨ 128 ≤ c.toNat := by
  rcases breaks_cases h with hblank | rfl | rfl
  · unfold isBlank at hblank
    split at hblank
    · have hpoint : c.toNat = 32 ∨ 9 ≤ c.toNat ∧ c.toNat ≤ 13 := by simpa using hblank
      omega
    · omega
  · decide
  · decide

theorem isDigit_of_breaks (c : Char) (h : breaks c = true) : c.isDigit = false := by
  have hplace := toNat_of_breaks h
  cases hdigit : c.isDigit with
  | false => rfl
  | true =>
    have := toNat_of_isDigit hdigit
    omega

theorem endsNumber_of_breaks {c : Char} (h : breaks c = true) : EndsNumber c := by
  refine ⟨isWordPart_of_breaks h, ?_⟩
  intro hsign
  have hnone : numberSigns.any breaks = false := by decide
  exact List.any_eq_false.mp hnone c hsign h

theorem local_numeric : Local numericLiteral? := by
  constructor
  · intro front rest hrest
    exact numericLiteral?_append (fun c hc => endsNumber_of_breaks (hrest c hc)) front
  · intro text literal rest h
    obtain ⟨front, rfl, -, -, hform, -⟩ := numericLiteral?_eq_some_iff.mp h
    obtain ⟨c, others, rfl, -⟩ := hform.head
    exact left_append (List.cons_ne_nil c others) rest

/-! ## Literals -/

/-- The literals that are no quoted texts. -/
def unquotedLiteral? (text : List Char) : Option (Literal × List Char) :=
  match wordLiteral? text with
  | some read => some read
  | none => numericLiteral? text

theorem local_unquoted : Local unquotedLiteral? := by
  have hwords : ∀ entry ∈ wordLiterals, IsKeyword entry.1 := by decide
  have hword : Local fun text => wordLiterals.findSome? fun entry =>
      standing (Literal.mk entry.2 entry.1) (dropKeyword? entry.1.toList) text :=
    local_findSome fun entry hentry => local_keyword (hwords entry hentry) _
  constructor
  · intro front rest hrest
    unfold unquotedLiteral?
    have hfront : wordLiteral? (front ++ rest)
        = (wordLiteral? front).map (Prod.map id (· ++ rest)) := hword.apart front rest hrest
    rw [hfront]
    cases wordLiteral? front with
    | some read => rfl
    | none => exact local_numeric.apart front rest hrest
  · intro text literal rest h
    unfold unquotedLiteral? at h
    split at h
    · rename_i read hread
      cases h
      exact hword.left hread
    · exact local_numeric.left h

theorem literal?_of_not_quote {c : Char} (h : isQuote c = false) (text : List Char) :
    literal? (c :: text) = unquotedLiteral? (c :: text) := by
  have hquotes : c ≠ singleQuote ∧ c ≠ doubleQuote := by simpa [isQuote] using h
  exact literal?_unquoted hquotes.1 hquotes.2

theorem quoted?_left {quote : Char} {text content rest : List Char}
    (h : quoted? quote text = some (content, rest)) : Left true text rest := by
  obtain ⟨rfl, -⟩ := quoted?_eq_some_iff.mp h
  rw [List.append_cons]
  exact left_append (by simp) rest

/-- A literal is not empty. -/
theorem left_literal {text rest : List Char} {literal : Literal}
    (h : literal? text = some (literal, rest)) : Left true text rest := by
  cases text with
  | nil => cases h
  | cons c text =>
    cases hquote : isQuote c with
    | true =>
      rw [literal?_quote hquote] at h
      obtain ⟨read, hread, heq⟩ := Option.map_eq_some_iff.mp h
      cases heq
      exact (left_cons c text).trans (quoted?_left hread)
    | false =>
      rw [literal?_of_not_quote hquote] at h
      exact local_unquoted.left h

end EntityQuery.Grammar

import EntityQuery.Proofs.Spelling
import Mathlib.Data.List.TakeWhile

/-!
# Leading tokens

Blanks before a token do not matter, so what a reader of one token answers is decided by the first
token of the text. A text of spaced tokens has one blank before each of them.

* `dropKeyword?_eq`: a keyword is there exactly if it is the leading word of the text.
* `spaced`, `Shows`: the text of a list of tokens, and a text that differs from it in the blanks at
  its beginning only.
* `Bars`, `Lacks`: the first of the tokens is not the sign, or not the keyword.
* `sign_taken`, `sign_barred`, `keyword_taken`, `keyword_lacking`: how the readers of signs and
  keywords decide.
-/

namespace EntityQuery.Grammar

open EntityQuery.Text

/-! ## Blanks -/

theorem le_toNat_of_isAlpha {c : Char} (h : c.isAlpha = true) : 65 ≤ c.toNat := by
  rcases Bool.or_eq_true_iff.mp h with hupper | hlower
  · obtain ⟨hfrom, -⟩ := of_decide_eq_true hupper
    exact UInt32.le_iff_toNat_le.mp hfrom
  · obtain ⟨hfrom, -⟩ := Bool.and_eq_true_iff.mp hlower
    exact Nat.le_trans (by decide) (UInt32.le_iff_toNat_le.mp (of_decide_eq_true hfrom))

/-- Tables whose ranges lie apart have no point in common. -/
theorem holds_of_apart {first second : Ranges}
    (hapart : (first.all fun a => second.all fun b => Nat.blt a.2 b.1 || Nat.blt b.2 a.1) = true)
    {point : Nat} (h : second.holds point = true) : first.holds point = false := by
  rw [Ranges.holds, List.any_eq_false]
  intro range hrange hholds
  obtain ⟨other, hother, hin⟩ := List.any_eq_true.mp h
  have hlies := List.all_eq_true.mp (List.all_eq_true.mp hapart range hrange) other hother
  simp only [Bool.or_eq_true, Nat.blt_eq, Bool.and_eq_true, decide_eq_true_eq] at hlies hholds hin
  omega

theorem isLetter_of_isBlank {c : Char} (h : isBlank c = true) : isLetter c = false := by
  have hapart : (letterRanges.all fun a => blankRanges.all fun b =>
      Nat.blt a.2 b.1 || Nat.blt b.2 a.1) = true := by
    decide +kernel
  unfold isBlank at h
  split at h
  · rename_i hascii
    rw [isLetter_ascii hascii]
    have hpoint : c.toNat = 32 ∨ 9 ≤ c.toNat ∧ c.toNat ≤ 13 := by simpa using h
    cases halpha : c.isAlpha with
    | false => rfl
    | true =>
      have := le_toNat_of_isAlpha halpha
      omega
  · rename_i hascii
    rw [isLetter, if_neg hascii]
    exact holds_of_apart hapart h

theorem isBlank_of_isWordStart {c : Char} (h : isWordStart c = true) : isBlank c = false := by
  cases hblank : isBlank c with
  | false => rfl
  | true =>
    simp only [isWordStart, isLetter_of_isBlank hblank, Bool.false_or, Bool.or_eq_true,
      decide_eq_true_eq] at h
    rcases h with rfl | rfl
    · exact absurd hblank (by decide)
    · exact absurd hblank (by decide)

theorem trimStart_of_head {text : List Char} (h : ∀ c ∈ text.head?, isBlank c = false) :
    trimStart text = text := by
  cases text with
  | nil => rfl
  | cons c text => rw [trimStart_cons, h c rfl]; rfl

@[simp] theorem trimStart_trimStart (text : List Char) :
    trimStart (trimStart text) = trimStart text := by
  induction text with
  | nil => rfl
  | cons c text ih =>
    rw [trimStart_cons]
    split
    · exact ih
    · rename_i hblank
      rw [trimStart_cons, if_neg hblank]

@[simp] theorem trimStart_space (text : List Char) : trimStart (' ' :: text) = trimStart text := rfl

/-! ## Words -/

/-- A scan takes what passes and stops before the first character that does not. -/
theorem takeWhile_front {test : Char → Bool} {front rest : List Char}
    (hfront : ∀ c ∈ front, test c = true) (hrest : ∀ c ∈ rest.head?, test c = false) :
    (front ++ rest).takeWhile test = front ∧ (front ++ rest).dropWhile test = rest := by
  rw [List.takeWhile_append_of_pos hfront, List.dropWhile_append_of_pos hfront]
  cases rest with
  | nil => exact ⟨List.append_nil front, rfl⟩
  | cons c rest =>
    have hc : ¬test c = true := by simp [hrest c rfl]
    rw [List.takeWhile_cons_of_neg hc, List.dropWhile_cons_of_neg hc, List.append_nil]
    exact ⟨rfl, rfl⟩

theorem not_head_dropWhile {test : Char → Bool} {text : List Char} :
    ∀ c ∈ (text.dropWhile test).head?, test c = false := by
  intro c hc
  have hnot := List.head?_dropWhile_not test text
  rw [Option.mem_def.mp hc] at hnot
  exact hnot

theorem endsWord_iff {rest : List Char} :
    endsWord rest = true ↔ ∀ c ∈ rest.head?, isWordPart c = false := by
  cases rest <;> simp [endsWord]

/-- The leading word of a text is followed by no further character of an identifier. -/
theorem takeWord?_eq_some {text rest : List Char} {word : String}
    (h : takeWord? text = some (word, rest)) :
    text = word.toList ++ rest ∧ IsWord word ∧ endsWord rest = true := by
  cases text with
  | nil => cases h
  | cons c text =>
    rw [takeWord?] at h
    split at h
    · rename_i hstart
      cases h
      refine ⟨?_, ?_, endsWord_iff.mpr not_head_dropWhile⟩
      · rw [String.toList_ofList, List.cons_append, List.takeWhile_append_dropWhile]
      · rw [IsWord, String.toList_ofList, takeWord?, if_pos hstart, List.takeWhile_idem,
          List.dropWhile_eq_nil_iff.mpr fun _ => List.mem_takeWhile_imp]
    · cases h

theorem IsWord.form {word : String} (h : IsWord word) :
    ∃ c letters, word.toList = c :: letters ∧ isWordStart c = true
      ∧ ∀ d ∈ letters, isWordPart d = true := by
  unfold IsWord at h
  cases hword : word.toList with
  | nil => rw [hword] at h; cases h
  | cons c letters =>
    rw [hword, takeWord?] at h
    split at h
    · rename_i hstart
      simp only [Option.some.injEq, Prod.mk.injEq, List.dropWhile_eq_nil_iff] at h
      exact ⟨c, letters, rfl, hstart, h.2⟩
    · cases h

theorem takeWord?_word {word : String} (h : IsWord word) {rest : List Char}
    (hrest : endsWord rest = true) : takeWord? (word.toList ++ rest) = some (word, rest) := by
  obtain ⟨c, letters, hword, hstart, hletters⟩ := h.form
  obtain ⟨htake, hdrop⟩ := takeWhile_front hletters (endsWord_iff.mp hrest)
  rw [hword, List.cons_append, takeWord?, if_pos hstart, htake, hdrop, ← hword,
    String.ofList_toList]

/-! ## Keywords -/

theorem isAlpha_of_toLower {c : Char} (h : c.toLower.isLower = true) : c.isAlpha = true := by
  by_cases hupper : c.val ≥ 'A'.val ∧ c.val ≤ 'Z'.val
  · exact Bool.or_eq_true_iff.mpr (.inl (decide_eq_true hupper))
  · have hsame : c.toLower = c := dif_neg hupper
    rw [hsame] at h
    exact Bool.or_eq_true_iff.mpr (.inr h)

/-- Keywords are made of small letters. -/
theorem keyword_letters {keyword : String} (h : keyword ∈ reservedWords) :
    keyword.toList ≠ [] ∧ ∀ c ∈ keyword.toList, c.isLower = true := by
  have hall : (reservedWords.all fun keyword =>
      !keyword.toList.isEmpty && keyword.toList.all Char.isLower) = true := by
    decide +kernel
  have hletters := List.all_eq_true.mp hall keyword h
  simpa using hletters

/-- A keyword is there exactly if it is the leading word of the text, in any case of its letters. -/
theorem dropKeyword?_eq {keyword : String} (hkeyword : keyword ∈ reservedWords)
    (text : List Char) :
    dropKeyword? keyword.toList text = (takeWord? text).bind fun read =>
      if lowered read.1 = keyword then some read.2 else none := by
  obtain ⟨hne, hletters⟩ := keyword_letters hkeyword
  -- What matches the keyword is a word that ends where the keyword has to end.
  have hmatch : ∀ rest, dropKeyword? keyword.toList text = some rest →
      ∃ word, takeWord? text = some (word, rest) ∧ lowered word = keyword := by
    intro rest h
    unfold dropKeyword? at h
    split at h
    · rename_i after hafter
      split at h
      · rename_i hends
        cases h
        obtain ⟨front, rfl, hfront⟩ := dropWord?_eq_some hafter
        have hparts : ∀ c ∈ front, isLetter c = true := by
          intro c hc
          apply isLetter_of_isAlpha
          apply isAlpha_of_toLower
          apply hletters
          rw [← hfront]
          exact List.mem_map_of_mem hc
        have hword : IsWord (String.ofList front) := by
          rw [IsWord, String.toList_ofList]
          cases front with
          | nil => exact absurd hfront.symm hne
          | cons c front =>
            obtain ⟨hc, hfront⟩ := List.forall_mem_cons.mp hparts
            have hall : ∀ d ∈ front, isWordPart d = true := fun d hd => by
              simp [isWordPart, hfront d hd]
            have hstart : isWordStart c = true := by simp [isWordStart, hc]
            rw [takeWord?, if_pos hstart, List.takeWhile_eq_self_iff.mpr hall,
              List.dropWhile_eq_nil_iff.mpr hall]
        refine ⟨String.ofList front, ?_, ?_⟩
        · have := takeWord?_word hword hends
          rwa [String.toList_ofList] at this
        · rw [lowered, String.toList_ofList, hfront, String.ofList_toList]
      · cases h
    · cases h
  cases hdrop : dropKeyword? keyword.toList text with
  | some rest =>
    obtain ⟨word, htake, hlowered⟩ := hmatch rest hdrop
    simp [htake, hlowered]
  | none =>
    cases htake : takeWord? text with
    | none => rfl
    | some read =>
      obtain ⟨word, rest⟩ := read
      obtain ⟨rfl, -, hends⟩ := takeWord?_eq_some htake
      have hlowered : lowered word ≠ keyword := by
        rintro rfl
        rw [lowered, String.toList_ofList, dropKeyword?, dropWord?_append] at hdrop
        simp [hends] at hdrop
      simp [hlowered]

theorem keyword_word {keyword : String} (h : keyword ∈ reservedWords) :
    IsWord keyword ∧ lowered keyword = keyword := by
  have hall : ∀ keyword ∈ reservedWords,
      takeWord? keyword.toList = some (keyword, []) ∧ lowered keyword = keyword := by
    decide +kernel
  exact hall keyword h

/-- Which of the keywords a text begins with is decided by the whole word. -/
theorem dropKeyword?_word {keyword word : String} (hkeyword : keyword ∈ reservedWords)
    (hword : word ∈ reservedWords) {rest : List Char} (hrest : endsWord rest = true) :
    dropKeyword? keyword.toList (word.toList ++ rest) =
      if word = keyword then some rest else none := by
  obtain ⟨hform, hlowered⟩ := keyword_word hword
  rw [dropKeyword?_eq hkeyword, takeWord?_word hform hrest]
  simp [hlowered]

theorem dropKeyword?_of_head {keyword : String} (hkeyword : keyword ∈ reservedWords) {c : Char}
    (hc : isWordStart c = false) (text : List Char) :
    dropKeyword? keyword.toList (c :: text) = none := by
  rw [dropKeyword?_eq hkeyword, takeWord?, hc]
  rfl

/-! ## Spaced tokens -/

/-- The text of tokens with a space before each. -/
def spaced (tokens : List String) : List Char := tokens.flatMap fun token => ' ' :: token.toList

@[simp] theorem spaced_nil : spaced [] = [] := rfl

@[simp] theorem spaced_cons (token : String) (tokens : List String) :
    spaced (token :: tokens) = ' ' :: (token.toList ++ spaced tokens) := rfl

@[simp] theorem spaced_append (front back : List String) :
    spaced (front ++ back) = spaced front ++ spaced back := by
  simp [spaced]

theorem length_le_spaced (tokens : List String) : tokens.length ≤ (spaced tokens).length := by
  induction tokens with
  | nil => exact Nat.le_refl 0
  | cons token tokens ih =>
    simp only [spaced_cons, List.length_cons, List.length_append]
    omega

/-- The text is empty or begins with a space, so that no token before it goes on in it. -/
def Apart (rest : List Char) : Prop := ∀ c ∈ rest.head?, c = ' '

theorem apart_spaced (tokens : List String) : Apart (spaced tokens) := by
  intro c hc
  cases tokens with
  | nil => cases hc
  | cons token tokens => cases hc; rfl

theorem Apart.endsWord {rest : List Char} (h : Apart rest) : endsWord rest = true := by
  apply endsWord_iff.mpr
  intro c hc
  rw [h c hc]
  decide

/-- The text begins with a character that is not blank. -/
def Solid (text : List Char) : Prop := ∃ c rest, text = c :: rest ∧ isBlank c = false

/-- The token is solid. -/
def isSolid (token : String) : Bool := token.toList.head?.any fun c => !isBlank c

theorem solid_of_isSolid {token : String} (h : isSolid token = true) : Solid token.toList := by
  simp only [isSolid, Option.any_eq_true, Bool.not_eq_true'] at h
  obtain ⟨c, hhead, hblank⟩ := h
  obtain ⟨rest, htext⟩ := List.head?_eq_some_iff.mp hhead
  exact ⟨c, rest, htext, hblank⟩

theorem Solid.trimStart {text : List Char} (h : Solid text) (rest : List Char) :
    trimStart (text ++ rest) = text ++ rest := by
  obtain ⟨c, front, rfl, hc⟩ := h
  apply trimStart_of_head
  intro d hd
  cases hd
  exact hc

theorem IsWord.solid {word : String} (h : IsWord word) : Solid word.toList := by
  obtain ⟨c, letters, hword, hstart, -⟩ := h.form
  exact ⟨c, letters, hword, isBlank_of_isWordStart hstart⟩

/-- Behind its blanks the text consists of the tokens with a space before each further one. -/
def Shows (tokens : List String) (source : List Char) : Prop :=
  trimStart source = trimStart (spaced tokens)

theorem shows_spaced (tokens : List String) : Shows tokens (spaced tokens) := rfl

theorem Shows.trimmed {tokens : List String} {source : List Char} (h : Shows tokens source) :
    Shows tokens (trimStart source) := by
  unfold Shows
  rw [trimStart_trimStart]
  exact h

theorem trimStart_spaced {token : String} (h : Solid token.toList) (tokens : List String) :
    trimStart (spaced (token :: tokens)) = token.toList ++ spaced tokens := by
  rw [spaced_cons, trimStart_space, h.trimStart]

theorem Shows.text {token : String} {tokens : List String} {source : List Char}
    (h : Shows (token :: tokens) source) (hsolid : Solid token.toList) :
    trimStart source = token.toList ++ spaced tokens := by
  rw [h, trimStart_spaced hsolid]

/-! ## Signs -/

theorem Reader.token_ok {drop? : List Char → Option (List Char)} {source rest : List Char}
    (h : drop? source = some rest) : Reader.token drop? source = .ok () rest := by
  unfold Reader.token
  rw [h]

theorem Reader.token_fail {drop? : List Char → Option (List Char)} {source : List Char}
    (h : drop? source = none) : Reader.token drop? source = .fail source := by
  unfold Reader.token
  rw [h]

/-- The first of the tokens does not begin like the sign. -/
def Bars (sign : String) (tokens : List String) : Prop :=
  dropSign? sign.toList (trimStart (spaced tokens)) = none

theorem dropSign?_append (sign rest : List Char) : dropSign? sign (sign ++ rest) = some rest := by
  induction sign with
  | nil => rfl
  | cons s sign ih =>
    rw [List.cons_append, dropSign?, if_pos rfl]
    exact ih

theorem dropSign?_of_head {s : Char} {sign text : List Char} (h : text.head? ≠ some s) :
    dropSign? (s :: sign) text = none := by
  cases text with
  | nil => rfl
  | cons c text =>
    have hne : c ≠ s := by simpa using h
    rw [dropSign?, if_neg hne]

theorem bars_of_head {sign token : String} {s c : Char} {signs letters : List Char}
    (hsign : sign.toList = s :: signs) (htoken : token.toList = c :: letters)
    (hblank : isBlank c = false) (hne : c ≠ s) (tokens : List String) :
    Bars sign (token :: tokens) := by
  have hsolid : Solid token.toList := ⟨c, letters, htoken, hblank⟩
  unfold Bars
  rw [trimStart_spaced hsolid, hsign, htoken]
  apply dropSign?_of_head
  simpa using hne

/-- The token begins with a character that is neither blank nor that of the sign. -/
def differs (sign token : String) : Bool :=
  match sign.toList, token.toList with
  | s :: _, c :: _ => c != s && !isBlank c
  | _, _ => false

theorem bars_of_differs {sign token : String} (h : differs sign token = true)
    (tokens : List String) : Bars sign (token :: tokens) := by
  unfold differs at h
  split at h
  · rename_i s signs c letters hsign htoken
    simp only [Bool.and_eq_true, bne_iff_ne, Bool.not_eq_true'] at h
    exact bars_of_head hsign htoken h.2 h.1 tokens
  · cases h

theorem bars_nil {sign : String} (h : sign.toList ≠ []) : Bars sign [] := by
  unfold Bars
  cases hsign : sign.toList with
  | nil => exact absurd hsign h
  | cons s letters => rfl

section

variable {token : String} {tokens : List String} {source : List Char}

theorem sign_taken (h : Shows (token :: tokens) source) (hsolid : isSolid token = true) :
    sign token source = .ok () (spaced tokens) := by
  apply Reader.token_ok
  rw [h.text (solid_of_isSolid hsolid), dropSign?_append]

theorem sign_spaced (token : String) (tokens : List String) (hsolid : isSolid token = true) :
    sign token (spaced (token :: tokens)) = .ok () (spaced tokens) :=
  sign_taken (shows_spaced _) hsolid

theorem sign_barred (h : Shows tokens source) (hbars : Bars token tokens) :
    sign token source = .fail source := by
  apply Reader.token_fail
  rw [h, hbars]

theorem exactSign_barred (h : Shows tokens source) (hbars : Bars token tokens) :
    exactSign token (trimStart source) = .fail (trimStart source) := by
  apply Reader.token_fail
  rw [h, hbars]

theorem beginsWithSign_taken (h : Shows (token :: tokens) source) (hsolid : isSolid token = true) :
    beginsWithSign token source = true := by
  unfold beginsWithSign
  rw [h.text (solid_of_isSolid hsolid), dropSign?_append]
  rfl

theorem beginsWithSign_barred (h : Shows tokens source) (hbars : Bars token tokens) :
    beginsWithSign token source = false := by
  unfold beginsWithSign
  rw [h, hbars]
  rfl

end

/-! ## Keywords among tokens -/

/-- The first of the tokens is not the keyword. -/
def Lacks (keyword : String) (tokens : List String) : Prop :=
  dropKeyword? keyword.toList (trimStart (spaced tokens)) = none

/-- The leading word of a text does not depend on what stands apart behind the text. -/
theorem takeWord?_append {text rest : List Char} (htext : text ≠ [])
    (hrest : endsWord rest = true) :
    takeWord? (text ++ rest) = (takeWord? text).map fun read => (read.1, read.2 ++ rest) := by
  cases text with
  | nil => exact absurd rfl htext
  | cons c text =>
    rw [List.cons_append, takeWord?, takeWord?]
    split
    · have hstop : ∀ d ∈ (text.dropWhile isWordPart ++ rest).head?, isWordPart d = false := by
        intro d hd
        cases hafter : text.dropWhile isWordPart with
        | nil =>
          rw [hafter] at hd
          exact endsWord_iff.mp hrest d hd
        | cons e after =>
          rw [hafter] at hd
          have hnot := @not_head_dropWhile isWordPart text d
          rw [hafter] at hnot
          exact hnot hd
      have hfront : ∀ d ∈ text.takeWhile isWordPart, isWordPart d = true :=
        fun _ => List.mem_takeWhile_imp
      obtain ⟨htake, hdrop⟩ := takeWhile_front hfront hstop
      rw [← List.append_assoc, List.takeWhile_append_dropWhile] at htake hdrop
      simp [htake, hdrop]
    · rfl

theorem lacks_of_leadingWord {keyword token : String} (hkeyword : keyword ∈ reservedWords)
    (hsolid : Solid token.toList)
    (hword : ∀ read ∈ takeWord? token.toList, lowered read.1 ≠ keyword) (tokens : List String) :
    Lacks keyword (token :: tokens) := by
  have hne : token.toList ≠ [] := by
    obtain ⟨c, letters, htoken, -⟩ := hsolid
    simp [htoken]
  unfold Lacks
  rw [trimStart_spaced hsolid, dropKeyword?_eq hkeyword,
    takeWord?_append hne (apart_spaced tokens).endsWord]
  cases htake : takeWord? token.toList with
  | none => rfl
  | some read =>
    have hlowered := hword read htake
    simp [hlowered]

/-- The leading word of the token, in small letters, is not the keyword. -/
def lacking (keyword token : String) : Bool :=
  isSolid token && (takeWord? token.toList).all fun read => lowered read.1 != keyword

theorem lacks_of_lacking {keyword token : String} (hkeyword : keyword ∈ reservedWords)
    (h : lacking keyword token = true) (tokens : List String) :
    Lacks keyword (token :: tokens) := by
  unfold lacking at h
  obtain ⟨hsolid, hall⟩ := Bool.and_eq_true_iff.mp h
  apply lacks_of_leadingWord hkeyword (solid_of_isSolid hsolid)
  intro read hread
  rw [Option.mem_def.mp hread] at hall
  simpa using hall

theorem lacks_nil {keyword : String} (hkeyword : keyword ∈ reservedWords) : Lacks keyword [] := by
  unfold Lacks
  rw [dropKeyword?_eq hkeyword]
  rfl

section

variable {word : String} {tokens : List String} {source : List Char}

theorem dropKeyword?_taken (h : Shows (word :: tokens) source) (hword : word ∈ reservedWords) :
    dropKeyword? word.toList (trimStart source) = some (spaced tokens) := by
  have hform := (keyword_word hword).1
  rw [h.text hform.solid, dropKeyword?_word hword hword (apart_spaced tokens).endsWord, if_pos rfl]

theorem keyword_taken (h : Shows (word :: tokens) source) (hword : word ∈ reservedWords) :
    keyword word source = .ok () (spaced tokens) :=
  Reader.token_ok (dropKeyword?_taken h hword)

theorem keyword_spaced (word : String) (tokens : List String) (hword : word ∈ reservedWords) :
    keyword word (spaced (word :: tokens)) = .ok () (spaced tokens) :=
  keyword_taken (shows_spaced _) hword

theorem exactKeyword_taken (h : Shows (word :: tokens) source) (hword : word ∈ reservedWords) :
    exactKeyword word (trimStart source) = .ok () (spaced tokens) :=
  Reader.token_ok (dropKeyword?_taken h hword)

theorem keyword_lacking (h : Shows tokens source) (hlacks : Lacks word tokens) :
    keyword word source = .fail source := by
  apply Reader.token_fail
  rw [h, hlacks]

/-- The first of the tokens is not the keyword. -/
theorem keyword_other (word : String) {token : String} (h : Shows (token :: tokens) source)
    (hword : word ∈ reservedWords) (hlacking : lacking word token = true) :
    keyword word source = .fail source :=
  keyword_lacking h (lacks_of_lacking hword hlacking tokens)

theorem exactKeyword_lacking (h : Shows tokens source) (hlacks : Lacks word tokens) :
    exactKeyword word (trimStart source) = .fail (trimStart source) := by
  apply Reader.token_fail
  rw [h, hlacks]

theorem beginsWithWord_taken (h : Shows (word :: tokens) source) (hword : word ∈ reservedWords) :
    beginsWithWord word source = true := by
  unfold beginsWithWord
  rw [dropKeyword?_taken h hword]
  rfl

theorem beginsWithWord_lacking (h : Shows tokens source) (hlacks : Lacks word tokens) :
    beginsWithWord word source = false := by
  unfold beginsWithWord
  rw [h, hlacks]
  rfl

end

/-! ## What may follow -/

/-- The tokens are at their end or go on with one of those that are listed. -/
def Follows (followers tokens : List String) : Prop := ∀ token ∈ tokens.head?, token ∈ followers

theorem follows_nil (followers : List String) : Follows followers [] := fun _ h => by cases h

theorem follows_cons {followers : List String} {token : String} (h : token ∈ followers)
    (tokens : List String) : Follows followers (token :: tokens) := by
  intro first hfirst
  cases hfirst
  exact h

theorem Follows.mono {followers more tokens : List String} (h : Follows followers tokens)
    (hmore : followers ⊆ more) : Follows more tokens :=
  fun token htoken => hmore (h token htoken)

/-- None of the tokens begins like the sign. -/
def barring (sign : String) (followers : List String) : Bool :=
  !sign.toList.isEmpty && followers.all (differs sign)

theorem Follows.bars {followers tokens : List String} {sign : String}
    (h : Follows followers tokens) (hbarring : barring sign followers = true) :
    Bars sign tokens := by
  simp only [barring, Bool.and_eq_true, List.all_eq_true] at hbarring
  obtain ⟨hsign, hall⟩ := hbarring
  cases tokens with
  | nil =>
    apply bars_nil
    simpa using hsign
  | cons token tokens => exact bars_of_differs (hall token (h token rfl)) tokens

theorem Follows.lacks {followers tokens : List String} {keyword : String}
    (h : Follows followers tokens) (hkeyword : keyword ∈ reservedWords)
    (hall : followers.all (lacking keyword) = true) : Lacks keyword tokens := by
  cases tokens with
  | nil => exact lacks_nil hkeyword
  | cons token tokens =>
    have hlacking := List.all_eq_true.mp hall token (h token rfl)
    exact lacks_of_lacking hkeyword hlacking tokens

end EntityQuery.Grammar

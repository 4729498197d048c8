import EntityQuery.Grammar.Expression
import EntityQuery.Proofs.LongestNumbers
import EntityQuery.Proofs.QuotedTexts
import EntityQuery.Proofs.ReaderRuns

/-!
# Spelled tokens

The tokens that are not fixed are literals, parameters, paths and names of functions. Each is read
back where it stands apart from what follows it.

* `literalToken_spelled`, `parameter_spelled`, `dottedTail_spelled`.
* `Opens`: what an expression may begin with: none of certain signs and keywords.
-/

namespace EntityQuery.Grammar

open EntityQuery.Phrase
open EntityQuery.Text

/-! ## Literals -/

/-- How a literal that some text is read as is written: between quotes, as a word, or as a number.
-/
inductive LiteralForm (literal : Literal) : Prop where
  | quoted (quote : Char) (hquote : quote = singleQuote ∨ quote = doubleQuote)
      (htoken : literal.token = Phrase.quoted quote literal.text)
      (hkind : literal.kind = quotedKind quote literal.text.toList)
  | word (htoken : literal.token = literal.text)
      (hword : (literal.text, literal.kind) ∈ wordLiterals)
  | number (c : Char) (letters : List Char) (htoken : literal.token.toList = c :: letters)
      (hc : BeginsNumber c)
      (hagain : ∀ rest, Apart rest → numericLiteral? (c :: letters ++ rest) = some (literal, rest))

theorem numericLiteral?_form {text rest : List Char} {literal : Literal}
    (h : numericLiteral? text = some (literal, rest)) : LiteralForm literal := by
  obtain ⟨front, -, -, -, hform, htext⟩ := numericLiteral?_eq_some_iff.mp h
  obtain ⟨c, letters, rfl, hc⟩ := hform.head
  have htoken : literal.token.toList = c :: letters := by
    have hkind := hform.kind_mem
    unfold Literal.token
    split
    · rename_i hstring
      rw [hstring] at hkind
      exact absurd hkind (by decide)
    · rename_i hcharacter
      rw [hcharacter] at hkind
      exact absurd hkind (by decide)
    · rw [htext]
      exact String.toList_ofList
  refine .number c letters htoken hc fun rest hrest => ?_
  exact numericLiteral?_front hform htext fun c hc => by
    rw [hrest c hc]
    exact endsNumber_blank

theorem wordLiteral?_form {text rest : List Char} {literal : Literal}
    (h : wordLiteral? text = some (literal, rest)) : LiteralForm literal := by
  obtain ⟨entry, hentry, hfound⟩ := List.exists_of_findSome?_eq_some h
  obtain ⟨behind, -, heq⟩ := Option.map_eq_some_iff.mp hfound
  cases heq
  have hall : ∀ entry ∈ wordLiterals, (Literal.mk entry.2 entry.1).token = entry.1 := by decide
  exact .word (hall entry hentry) hentry

theorem quotedLiteral?_form {quote : Char} {text rest : List Char} {literal : Literal}
    (h : quotedLiteral? quote text = some (literal, rest)) : LiteralForm literal := by
  obtain ⟨⟨content, behind⟩, -, heq⟩ := Option.map_eq_some_iff.mp h
  cases heq
  by_cases hcharacter : quote = singleQuote ∧ content.length = 1
  · have hkind : quotedKind quote content = .character := by simp [quotedKind, hcharacter]
    refine .quoted singleQuote (.inl rfl) ?_ ?_
    · simp [Literal.token, hkind]
    · rw [String.toList_ofList]
      show quotedKind quote content = _
      rw [hkind]
      simp [quotedKind, hcharacter.2]
  · have hkind : quotedKind quote content = .string := by
      unfold quotedKind
      rw [if_neg]
      simpa using hcharacter
    by_cases hlength : content.length = 1
    · refine .quoted doubleQuote (.inr rfl) ?_ ?_
      · simp [Literal.token, hkind, hlength]
      · have hne : doubleQuote ≠ singleQuote := by decide
        rw [String.toList_ofList]
        show quotedKind quote content = _
        rw [hkind]
        simp [quotedKind, hne]
    · refine .quoted singleQuote (.inl rfl) ?_ ?_
      · simp [Literal.token, hkind, hlength]
      · rw [String.toList_ofList]
        show quotedKind quote content = _
        rw [hkind]
        simp [quotedKind, hlength]

theorem literalForm_of_isRead {literal : Literal} (h : literal.IsRead) : LiteralForm literal := by
  obtain ⟨text, rest, hread⟩ := h
  unfold literalToken at hread
  split at hread
  · rename_i found behind hliteral
    cases hread
    unfold literal? at hliteral
    split at hliteral
    · cases hliteral
    · split at hliteral
      · exact quotedLiteral?_form hliteral
      · split at hliteral
        · rename_i read hword
          cases hliteral
          exact wordLiteral?_form hword
        · exact numericLiteral?_form hliteral
  · cases hread

theorem literalToken_of_some {text rest : List Char} {literal : Literal}
    (h : literal? text = some (literal, rest)) : literalToken text = .ok literal rest := by
  unfold literalToken
  rw [h]

theorem wordLiteral?_word {entry : String × LiteralKind} (h : entry ∈ wordLiterals)
    {rest : List Char} (hrest : endsWord rest = true) :
    wordLiteral? (entry.1.toList ++ rest) = some (⟨entry.2, entry.1⟩, rest) := by
  have htrue : "true" ∈ reservedWords := by decide
  have hfalse : "false" ∈ reservedWords := by decide
  have hnull : "null" ∈ reservedWords := by decide
  simp only [wordLiterals, List.mem_cons, List.not_mem_nil, or_false] at h
  unfold wordLiteral? wordLiterals
  rcases h with rfl | rfl | rfl
  · rw [List.findSome?_cons, dropKeyword?_word htrue htrue hrest]
    rfl
  · rw [List.findSome?_cons, dropKeyword?_word htrue hfalse hrest, if_neg (by decide),
      List.findSome?_cons, dropKeyword?_word hfalse hfalse hrest]
    rfl
  · rw [List.findSome?_cons, dropKeyword?_word htrue hnull hrest, if_neg (by decide),
      List.findSome?_cons, dropKeyword?_word hfalse hnull hrest, if_neg (by decide),
      List.findSome?_cons, dropKeyword?_word hnull hnull hrest]
    rfl

/-- A literal is read back. -/
theorem literalToken_spelled {literal : Literal} (h : LiteralForm literal) {rest : List Char}
    (hrest : Apart rest) : literalToken (literal.token.toList ++ rest) = .ok literal rest := by
  apply literalToken_of_some
  cases h with
  | quoted quote hquote htoken hkind =>
    have hnot : rest.head? ≠ some quote := by
      intro hhead
      have hspace := hrest quote hhead
      rcases hquote with rfl | rfl
      · exact absurd hspace (by decide)
      · exact absurd hspace (by decide)
    have hopens : (quote = singleQuote || quote = doubleQuote) = true := by simpa using hquote
    rw [htoken, quoted_toList, List.cons_append, List.append_assoc, List.singleton_append,
      literal?]
    simp only [hopens, if_true, quotedLiteral?, quoted?_doubled hnot, Option.map_some,
      ← hkind, String.ofList_toList]
  | word htoken hword =>
    have hquotes : ∀ entry ∈ wordLiterals, ∃ c letters, entry.1.toList = c :: letters
        ∧ c ≠ singleQuote ∧ c ≠ doubleQuote := by
      simp [wordLiterals, singleQuote, doubleQuote]
    obtain ⟨c, letters, htext, hsingle, hdouble⟩ := hquotes _ hword
    have hread := wordLiteral?_word hword hrest.endsWord
    simp only at htext hread
    rw [htext] at hread
    rw [htoken, htext, List.cons_append, literal?_unquoted hsingle hdouble, ← List.cons_append,
      hread]
  | number c letters htoken hc hagain =>
    rw [htoken, List.cons_append, literal?_numeric hc]
    exact hagain rest hrest

/-! ## Words -/

theorem wordThat_word {test : String → Bool} {word : String} {rest source : List Char}
    (hsource : trimStart source = word.toList ++ rest) (hword : IsWord word)
    (hrest : endsWord rest = true) (htest : test word = true) :
    wordThat test source = .ok word rest := by
  unfold wordThat
  rw [hsource, takeWord?_word hword hrest]
  simp only [htest, if_true]

theorem anyIdentifier_word {word : String} {rest : List Char} (hword : IsWord word)
    (hrest : endsWord rest = true) : anyIdentifier (word.toList ++ rest) = .ok word rest :=
  wordThat_word (hword.solid.trimStart rest) hword hrest rfl

/-- A number does not begin like a word. -/
theorem numeral?_of_isWordStart {c : Char} (h : isWordStart c = true) (text : List Char) :
    numeral? (c :: text) = none := by
  have hnot : ¬BeginsNumber c := by
    intro hc
    rw [hc.isWordStart] at h
    cases h
  have hdigit : c.isDigit = false := by
    rw [Bool.eq_false_iff]
    exact fun hc => hnot (.inl hc)
  have hpoint : c ≠ '.' := fun hc => hnot (.inr hc)
  have hplain : isPrefixed (c :: text) = false := by
    unfold isPrefixed
    split
    · rename_i heq
      cases heq
      have hzero : c ≠ '0' := by
        rintro rfl
        exact absurd hdigit (by decide)
      simp [hzero]
    · rfl
  have hdecimal := @decimalNumeral?_plain [] (c :: text) (fun _ hd => by cases hd)
  rw [numeral?_plain hplain]
  refine (hdecimal ?_).trans rfl
  intro d hd
  cases hd
  exact ⟨hdigit, hpoint⟩

/-- A word that is not a literal is not read as one. -/
theorem literalToken_word {word : String} {rest : List Char} (hword : IsWord word)
    (hrest : endsWord rest = true) (hnot : ∀ entry ∈ wordLiterals, lowered word ≠ entry.1) :
    literalToken (word.toList ++ rest) = .fail (word.toList ++ rest) := by
  have hnone : literal? (word.toList ++ rest) = none := by
    have hkeywords : ∀ entry ∈ wordLiterals, entry.1 ∈ reservedWords := by decide
    have hwordLiteral : wordLiteral? (word.toList ++ rest) = none := by
      unfold wordLiteral?
      rw [List.findSome?_eq_none_iff]
      intro entry hentry
      rw [dropKeyword?_eq (hkeywords entry hentry), takeWord?_word hword hrest]
      simp [hnot entry hentry]
    obtain ⟨c, letters, htext, hstart, -⟩ := hword.form
    have hsingle : c ≠ singleQuote := by
      rintro rfl
      exact absurd hstart (by decide)
    have hdouble : c ≠ doubleQuote := by
      rintro rfl
      exact absurd hstart (by decide)
    rw [htext, List.cons_append] at hwordLiteral ⊢
    rw [literal?_unquoted hsingle hdouble, hwordLiteral]
    unfold numericLiteral?
    rw [numeral?_of_isWordStart hstart]
  unfold literalToken
  rw [hnone]

/-! ## Parameters -/

/-- A number that fits the word is read from the digits that it is written with. -/
theorem readUnsigned_toDigits {bits number : Nat} (hnumber : number < 2 ^ bits) :
    Number.Whole.readUnsigned bits (Nat.toDigits 10 number) = .ok number := by
  have hrow := row_toDigits number
  have hread := @readDigits_row 10 (2 ^ bits - 1) .tooLarge (Nat.toDigits 10 number) (by decide)
    (fun c hc => digit?_ten (hrow.all c hc)) 0 (Nat.zero_le _)
  rw [Nat.zero_mul, Nat.zero_add, valueIn_toDigits, if_pos (Nat.le_sub_one_of_lt hnumber)] at hread
  cases hform : Nat.toDigits 10 number with
  | nil => exact absurd hform hrow.ne_nil
  | cons c digits =>
    rw [hform] at hrow hread
    have hplus : c ≠ '+' := by
      rintro rfl
      exact absurd (hrow.all '+' List.mem_cons_self) (by decide)
    simp [Number.Whole.readUnsigned, Number.Whole.readMagnitude, hplus, hread]

theorem position_spelled {number : Nat} (hnumber : number < Nat.pow 2 32) {rest : List Char}
    (hrest : Apart rest) :
    position ((toString number).toList ++ rest) = .ok number rest := by
  have htext : (toString number).toList = Nat.toDigits 10 number := Nat.toList_repr
  have hrow := row_toDigits number
  obtain ⟨htake, hdrop⟩ := takeWhile_front hrow.all (hrest.not_head (by decide))
  have hread := readUnsigned_toDigits hnumber
  unfold position
  rw [htext]
  simp only [htake, hdrop, hrow.isEmpty, Bool.false_eq_true, if_false, hread]

/-- A parameter is read back. -/
theorem parameter_spelled {value : Parameter} (h : value.IsRead) {rest : List Char}
    (hrest : Apart rest) : parameter (value.token.toList ++ rest) = .ok (some value) rest := by
  cases value with
  | named name =>
    have htext : (Parameter.named name).token.toList ++ rest = ':' :: (name.toList ++ rest) := by
      simp [Parameter.token]
    have hcolon : exactSign ":" (':' :: (name.toList ++ rest)) = .ok () (name.toList ++ rest) :=
      rfl
    have hname : IsWord name := h
    have hword := anyIdentifier_word hname hrest.endsWord
    rw [htext, parameter, Reader.bind_ok (Reader.accepts_ok hcolon)]
    show (anyIdentifier >>= _) _ = _
    rw [Reader.bind_ok hword]
    rfl
  | positional number =>
    have htext : (Parameter.positional number).token.toList ++ rest
        = '?' :: ((toString number).toList ++ rest) := by
      simp [Parameter.token]
    have hcolon : exactSign ":" ('?' :: ((toString number).toList ++ rest))
        = .fail ('?' :: ((toString number).toList ++ rest)) := rfl
    have hmark : exactSign "?" ('?' :: ((toString number).toList ++ rest))
        = .ok () ((toString number).toList ++ rest) := rfl
    rw [htext, parameter, Reader.bind_ok (Reader.accepts_fail hcolon)]
    show (Reader.accepts (exactSign "?") >>= _) _ = _
    rw [Reader.bind_ok (Reader.accepts_ok hmark)]
    show (position >>= _) _ = _
    rw [Reader.bind_ok (position_spelled h hrest)]
    rfl

/-! ## Paths -/

/-- Parts with a point before each. -/
def pointed (parts : List String) : List Char := parts.flatMap fun part => '.' :: part.toList

theorem text_toList (first : String) (parts : List String) :
    (DottedName.mk (first :: parts)).text.toList = first.toList ++ pointed parts := by
  unfold DottedName.text
  rw [String.toList_intercalate]
  induction parts generalizing first with
  | nil => simp [pointed]
  | cons part parts ih =>
    rw [List.map_cons, List.map_cons, List.intercalate_cons_cons, ← List.map_cons, ih]
    simp [pointed]

theorem endsWord_pointed {rest : List Char} (hrest : endsWord rest = true) (parts : List String) :
    endsWord (pointed parts ++ rest) = true := by
  cases parts with
  | nil => exact hrest
  | cons part parts =>
    apply endsWord_iff.mpr
    intro c hc
    cases hc
    decide

theorem dottedParts_spelled {parts tokens : List String} (hparts : ∀ part ∈ parts, IsWord part)
    (hbars : Bars "." tokens) :
    dottedParts (pointed parts ++ spaced tokens) = .ok parts (spaced tokens) := by
  apply Reader.Collects.many
  induction parts with
  | nil =>
    apply Reader.Collects.done
    apply Reader.optional_fail
    exact Reader.bind_fail (sign_barred (shows_spaced tokens) hbars)
  | cons part parts ih =>
    obtain ⟨hpart, hparts⟩ := List.forall_mem_cons.mp hparts
    have hends := endsWord_pointed (apart_spaced tokens).endsWord parts
    have hpoint : sign "." (pointed (part :: parts) ++ spaced tokens)
        = .ok () (part.toList ++ (pointed parts ++ spaced tokens)) := by
      have htext : pointed (part :: parts) ++ spaced tokens
          = '.' :: (part.toList ++ (pointed parts ++ spaced tokens)) := by
        simp [pointed]
      rw [htext]
      rfl
    have hword := anyIdentifier_word hpart hends
    refine .more (Reader.optional_ok ((Reader.bind_ok hpoint).trans hword)) ?_ (ih hparts)
    simp only [pointed, List.flatMap_cons, List.length_append, List.length_cons]
    omega

/-- A path is read back after its first part. -/
theorem dottedTail_spelled {first : String} {parts tokens : List String}
    (hparts : ∀ part ∈ parts, IsWord part) (hbars : Bars "." tokens) :
    dottedTail first (pointed parts ++ spaced tokens) = .ok ⟨first :: parts⟩ (spaced tokens) :=
  Reader.bind_ok (dottedParts_spelled hparts hbars)

/-! ## What an expression begins with -/

/-- Keywords that no expression begins with. -/
def formKeywords : List String := ["distinct", "select", "from", "when", "not", "exists"]

/-- The first of the tokens does not begin like one of the signs and is none of the keywords. -/
structure Opens (signs tokens : List String) : Prop where
  solid : ∀ token ∈ tokens.head?, Solid token.toList
  bars : ∀ sign ∈ signs, Bars sign tokens
  lacks : ∀ keyword ∈ formKeywords, Lacks keyword tokens

theorem Opens.mono {signs more tokens : List String} (h : Opens more tokens)
    (hmore : signs ⊆ more) : Opens signs tokens :=
  ⟨h.solid, fun sign hsign => h.bars sign (hmore hsign), h.lacks⟩

theorem Opens.text {signs tokens : List String} {token : String} {source : List Char}
    (h : Opens signs (token :: tokens)) (hshows : Shows (token :: tokens) source) :
    trimStart source = token.toList ++ spaced tokens :=
  hshows.text (h.solid token rfl)

theorem solid_head {token : String} (h : Solid token.toList) (tokens : List String) :
    ∀ first ∈ (token :: tokens).head?, Solid first.toList := by
  intro first hfirst
  cases hfirst
  exact h

theorem formKeywords_subset : formKeywords ⊆ reservedWords := by decide

/-- The signs that no expression without a leading sign begins with. -/
def closedSigns : List String := [")", "*", "+", "-"]

/-- The signs and marks that no literal, path or call begins with. -/
def leafSigns : List String := "(" :: ":" :: "?" :: closedSigns

/-- The signs begin with characters that do not pass the test. -/
def signsFail (test : Char → Bool) (signs : List String) : Bool :=
  signs.all fun sign => sign.toList.head?.any fun s => !test s

theorem bars_of_test (test : Char → Bool) {signs : List String}
    (hsigns : signsFail test signs = true) {token : String} {c : Char} {letters : List Char}
    (htoken : token.toList = c :: letters) (hblank : isBlank c = false) (hc : test c = true)
    (tokens : List String) : ∀ sign ∈ signs, Bars sign (token :: tokens) := by
  intro sign hsign
  have hfails := List.all_eq_true.mp hsigns sign hsign
  simp only [Option.any_eq_true, Bool.not_eq_true'] at hfails
  obtain ⟨s, hhead, hs⟩ := hfails
  obtain ⟨others, hform⟩ := List.head?_eq_some_iff.mp hhead
  refine bars_of_head hform htoken hblank ?_ tokens
  rintro rfl
  rw [hs] at hc
  cases hc

/-- A token that begins like no word is no keyword. -/
theorem opens_of_test (test : Char → Bool) {signs : List String}
    (hsigns : signsFail test signs = true) {token : String} {c : Char} {letters : List Char}
    (htoken : token.toList = c :: letters) (hblank : isBlank c = false) (hc : test c = true)
    (hstart : isWordStart c = false) (tokens : List String) : Opens signs (token :: tokens) := by
  have hsolid : Solid token.toList := ⟨c, letters, htoken, hblank⟩
  refine ⟨solid_head hsolid tokens, bars_of_test test hsigns htoken hblank hc tokens, ?_⟩
  intro keyword hkeyword
  apply lacks_of_leadingWord (formKeywords_subset hkeyword) hsolid
  intro read hread
  rw [htoken, takeWord?, hstart] at hread
  cases hread

theorem Follows.opens {followers signs tokens : List String} (h : Follows followers tokens)
    (hsolid : followers.all isSolid = true)
    (hsigns : signs.all (fun sign => barring sign followers) = true)
    (hkeywords : formKeywords.all (fun keyword => followers.all (lacking keyword)) = true) :
    Opens signs tokens where
  solid token htoken := solid_of_isSolid (List.all_eq_true.mp hsolid token (h token htoken))
  bars sign hsign := h.bars (List.all_eq_true.mp hsigns sign hsign)
  lacks keyword hkeyword :=
    h.lacks (formKeywords_subset hkeyword) (List.all_eq_true.mp hkeywords keyword hkeyword)

/-- The token is a word that is not reserved, perhaps with something behind it. -/
structure LeadsWord (token word : String) (behind : List Char) : Prop where
  text : token.toList = word.toList ++ behind
  form : IsWord word
  ends : endsWord behind = true
  free : isReserved word = false

theorem LeadsWord.lowered_not_mem {token word : String} {behind : List Char}
    (h : LeadsWord token word behind) : lowered word ∉ reservedWords := by
  have hfree := h.free
  unfold isReserved at hfree
  simpa using hfree

/-- The word is read up to what stands behind it in the token. -/
theorem LeadsWord.shown {token word : String} {behind : List Char}
    (h : LeadsWord token word behind) {tokens : List String} {source : List Char}
    (hshows : Shows (token :: tokens) source) :
    trimStart source = word.toList ++ (behind ++ spaced tokens)
      ∧ endsWord (behind ++ spaced tokens) = true := by
  obtain ⟨c, letters, hword, hstart, -⟩ := h.form.form
  have htoken : token.toList = c :: (letters ++ behind) := by rw [h.text, hword, List.cons_append]
  refine ⟨?_, ?_⟩
  · rw [hshows.text ⟨c, _, htoken, isBlank_of_isWordStart hstart⟩, h.text, List.append_assoc]
  · cases hbehind : behind with
    | nil => exact (apart_spaced tokens).endsWord
    | cons d others =>
      have hends := h.ends
      rw [hbehind] at hends
      exact hends

theorem LeadsWord.lacks {token word keyword : String} {behind : List Char}
    (h : LeadsWord token word behind) (hkeyword : keyword ∈ reservedWords)
    (tokens : List String) : Lacks keyword (token :: tokens) := by
  obtain ⟨c, letters, hword, hstart, -⟩ := h.form.form
  have htoken : token.toList = c :: (letters ++ behind) := by rw [h.text, hword, List.cons_append]
  apply lacks_of_leadingWord hkeyword ⟨c, _, htoken, isBlank_of_isWordStart hstart⟩
  intro read hread heq
  rw [h.text, takeWord?_word h.form h.ends] at hread
  cases hread
  apply h.lowered_not_mem
  rw [heq]
  exact hkeyword

theorem LeadsWord.opens {token word : String} {behind : List Char}
    (h : LeadsWord token word behind) (tokens : List String) :
    Opens leafSigns (token :: tokens) := by
  obtain ⟨c, letters, hword, hstart, -⟩ := h.form.form
  have htoken : token.toList = c :: (letters ++ behind) := by rw [h.text, hword, List.cons_append]
  have hblank := isBlank_of_isWordStart hstart
  refine ⟨solid_head ⟨c, _, htoken, hblank⟩ tokens, ?_, ?_⟩
  · exact bars_of_test isWordStart (by decide) htoken hblank hstart tokens
  · intro keyword hkeyword
    exact h.lacks (formKeywords_subset hkeyword) tokens

theorem leadsWord_function {name : String} (h : IsFunction name) : LeadsWord name name [] :=
  ⟨by simp, h.1, rfl, h.2.1⟩

theorem leadsWord_path {path : DottedName} (h : IsPath path) :
    ∃ first parts, path = ⟨first :: parts⟩ ∧ LeadsWord path.text first (pointed parts)
      ∧ ∀ part ∈ parts, IsWord part := by
  obtain ⟨first, parts, hpath, hfree, hwords⟩ := h
  obtain ⟨all⟩ := path
  cases hpath
  obtain ⟨hfirst, hparts⟩ := List.forall_mem_cons.mp hwords
  have hends := @endsWord_pointed [] rfl parts
  rw [List.append_nil] at hends
  exact ⟨first, parts, rfl, ⟨text_toList first parts, hfirst, hends, hfree⟩, hparts⟩

theorem literal_opens {literal : Literal} (h : literal.IsRead) (tokens : List String) :
    Opens leafSigns (literal.token :: tokens) := by
  cases literalForm_of_isRead h with
  | quoted quote hquote htoken hkind =>
    have hform := quoted_toList quote literal.text
    rw [← htoken] at hform
    rcases hquote with rfl | rfl
    · exact opens_of_test (· == singleQuote) (by decide) hform (by decide) (by decide)
        (by decide) tokens
    · exact opens_of_test (· == doubleQuote) (by decide) hform (by decide) (by decide)
        (by decide) tokens
  | word htoken hword =>
    have hlisted : literal.token ∈ ["true", "false", "null"] := by
      have hall : ∀ entry ∈ wordLiterals, entry.1 ∈ ["true", "false", "null"] := by decide
      rw [htoken]
      exact hall _ hword
    exact (follows_cons hlisted tokens).opens (by decide) (by decide) (by decide)
  | number c letters htoken hc hagain =>
    have hbound := hc.toNat
    refine opens_of_test (fun d => 46 ≤ d.toNat && d.toNat ≤ 57) (by decide) htoken
      hc.isBlank ?_ hc.isWordStart tokens
    simpa using hbound

theorem parameter_opens (parameter : Parameter) (tokens : List String) :
    Opens ("(" :: closedSigns) (parameter.token :: tokens) := by
  cases parameter with
  | named name =>
    have htoken : (Parameter.named name).token.toList = ':' :: name.toList := by
      simp [Parameter.token]
    exact opens_of_test (· == ':') (by decide) htoken (by decide) (by decide) (by decide)
      tokens
  | positional number =>
    have htoken : (Parameter.positional number).token.toList = '?' :: (toString number).toList := by
      simp [Parameter.token]
    exact opens_of_test (· == '?') (by decide) htoken (by decide) (by decide) (by decide)
      tokens

end EntityQuery.Grammar

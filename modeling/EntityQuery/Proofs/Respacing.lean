import EntityQuery.Proofs.RejectedTexts

/-!
# Texts that differ in their blanks

The amount and the kind of the blanks between tokens does not matter. Where the runs of blanks
outside quoted texts are replaced by other runs, the same phrase is read, or the text is rejected
with the same code.

* `Respaced`: a text and the same text with other blanks. The texts are scanned from the left, so
  that it is known which quotes open and which close a quoted text.
* `kindred_respaced`: every token begins both texts, or neither.
* `ofText_respaced`: what is read of such texts.
-/

namespace EntityQuery.Grammar

open EntityQuery.Phrase EntityQuery.Text

/-- The second text is the first one with every run of blanks outside quoted texts replaced by some
run of blanks. The scan stands outside quoted texts, or in one that the given quote has opened. -/
inductive Respaced : Option Char → List Char → List Char → Prop where
  | done (scan : Option Char) : Respaced scan [] []
  | gap {run run' text other : List Char} (hrun : run ≠ []) (hblank : ∀ c ∈ run, isBlank c = true)
      (hrun' : run' ≠ []) (hblank' : ∀ c ∈ run', isBlank c = true)
      (hends : ∀ c ∈ text.head?, isBlank c = false) (h : Respaced none text other) :
    Respaced none (run ++ text) (run' ++ other)
  | mark {c : Char} {text other : List Char} (hc : breaks c = false)
      (h : Respaced none text other) : Respaced none (c :: text) (c :: other)
  | opens {quote : Char} {text other : List Char} (hquote : isQuote quote = true)
      (h : Respaced (some quote) text other) : Respaced none (quote :: text) (quote :: other)
  | inside {quote c : Char} {text other : List Char} (hc : c ≠ quote)
      (h : Respaced (some quote) text other) :
    Respaced (some quote) (c :: text) (c :: other)
  | doubled {quote : Char} {text other : List Char} (h : Respaced (some quote) text other) :
    Respaced (some quote) (quote :: quote :: text) (quote :: quote :: other)
  | closes {quote : Char} {text other : List Char} (hcloses : text.head? ≠ some quote)
      (h : Respaced none text other) :
    Respaced (some quote) (quote :: text) (quote :: other)

/-- A part of a text without blanks and quotes stays as it is. -/
theorem Respaced.marks {front text other : List Char} (hfront : Unbroken front)
    (h : Respaced none text other) : Respaced none (front ++ text) (front ++ other) := by
  induction front with
  | nil => exact h
  | cons c front ih =>
    obtain ⟨hc, hfront⟩ := List.forall_mem_cons.mp hfront
    exact .mark hc (ih hfront)

theorem breaks_of_isQuote {c : Char} (h : isQuote c = true) : breaks c = true := by
  unfold isQuote at h
  unfold breaks
  rw [Bool.or_assoc, h, Bool.or_true]

theorem isBlank_of_isQuote {c : Char} (h : isQuote c = true) : isBlank c = false := by
  have hquote : c = singleQuote ∨ c = doubleQuote := by simpa [isQuote] using h
  rcases hquote with rfl | rfl
  · decide
  · decide

theorem isQuote_of_isBlank {c : Char} (h : isBlank c = true) : isQuote c = false := by
  cases hquote : isQuote c with
  | false => rfl
  | true =>
    rw [isBlank_of_isQuote hquote] at h
    cases h

section

variable {text other : List Char}

/-- The texts begin alike: both with blanks, or with the same character, or not at all. -/
theorem Respaced.heads (h : Respaced none text other) :
    (text = [] ∧ other = [])
      ∨ (∃ c d text' other', text = c :: text' ∧ other = d :: other' ∧ isBlank c = true
        ∧ isBlank d = true)
      ∨ ∃ c text' other', text = c :: text' ∧ other = c :: other' ∧ isBlank c = false := by
  cases h with
  | done => exact .inl ⟨rfl, rfl⟩
  | @gap run run' text other hrun hblank hrun' hblank' =>
    obtain ⟨c, run, rfl⟩ := List.exists_cons_of_ne_nil hrun
    obtain ⟨d, run', rfl⟩ := List.exists_cons_of_ne_nil hrun'
    exact .inr (.inl ⟨c, d, run ++ text, run' ++ other, rfl, rfl, hblank c List.mem_cons_self,
      hblank' d List.mem_cons_self⟩)
  | @mark c text other hc =>
    have hblank : isBlank c = false := by
      simp only [breaks, Bool.or_eq_false_iff] at hc
      exact hc.1.1
    exact .inr (.inr ⟨c, text, other, rfl, rfl, hblank⟩)
  | @opens quote text other hquote =>
    exact .inr (.inr ⟨quote, text, other, rfl, rfl, isBlank_of_isQuote hquote⟩)

/-- A run of blanks ends in the second text where it ends in the first one. -/
theorem Respaced.solid (h : Respaced none text other)
    (hsolid : ∀ c ∈ text.head?, isBlank c = false) : ∀ c ∈ other.head?, isBlank c = false := by
  rcases h.heads with ⟨-, rfl⟩ | ⟨c, d, text', other', rfl, rfl, hc, -⟩
    | ⟨c, text', other', rfl, rfl, hc⟩
  · exact fun c hc => by cases hc
  · rw [hsolid c rfl] at hc
    cases hc
  · intro d hd
    cases hd
    exact hc

theorem trimStart_run {run : List Char} (hrun : ∀ c ∈ run, isBlank c = true)
    (hsolid : ∀ c ∈ text.head?, isBlank c = false) : trimStart (run ++ text) = text :=
  (takeWhile_front hrun hsolid).2

theorem Respaced.trimmed (h : Respaced none text other) :
    Respaced none (trimStart text) (trimStart other) := by
  cases h with
  | done => exact .done none
  | gap hrun hblank hrun' hblank' hends h =>
    rw [trimStart_run hblank hends, trimStart_run hblank' (h.solid hends)]
    exact h
  | mark hc h =>
    have hblank := hc
    simp only [breaks, Bool.or_eq_false_iff] at hblank
    rw [trimStart_cons, trimStart_cons, hblank.1.1]
    exact .mark hc h
  | opens hquote h =>
    rw [trimStart_cons, trimStart_cons, isBlank_of_isQuote hquote]
    exact .opens hquote h

theorem stops_run {run : List Char} (hrun : run ≠ []) (hblank : ∀ c ∈ run, isBlank c = true)
    (rest : List Char) : Stops (run ++ rest) := by
  obtain ⟨c, run, rfl⟩ := List.exists_cons_of_ne_nil hrun
  intro d hd
  cases hd
  have hc := hblank c List.mem_cons_self
  unfold breaks
  rw [hc]
  rfl

theorem shareFront_respaced : ShareFront (Respaced none) := by
  intro text other h
  -- Only the characters of words, signs and numbers are shared one by one.
  generalize hscan : (none : Option Char) = scan at h
  induction h with
  | done =>
    refine ⟨[], [], [], rfl, rfl, stops_nil, stops_nil, ?_⟩
    intro last hlast
    obtain rfl := List.suffix_nil.mp hlast
    exact .done _
  | @gap run run' text other hrun hblank hrun' hblank' hends h =>
    refine ⟨[], run ++ text, run' ++ other, rfl, rfl, stops_run hrun hblank text,
      stops_run hrun' hblank' other, ?_⟩
    intro last hlast
    obtain rfl := List.suffix_nil.mp hlast
    show Respaced none (run ++ text) (run' ++ other)
    exact .gap hrun hblank hrun' hblank' hends h
  | @mark c text other hc h ih =>
    obtain ⟨front, rest, rest', rfl, rfl, hrest, hrest', hback⟩ := ih hscan
    refine ⟨c :: front, rest, rest', rfl, rfl, hrest, hrest', ?_⟩
    intro last hlast
    rcases List.suffix_cons_iff.mp hlast with rfl | hlast
    · exact .mark hc h
    · exact hback last hlast
  | @opens quote text other hquote h =>
    have hstops : ∀ rest, Stops (quote :: rest) := by
      intro rest c hc
      cases hc
      exact breaks_of_isQuote hquote
    refine ⟨[], quote :: text, quote :: other, rfl, rfl, hstops text, hstops other, ?_⟩
    intro last hlast
    obtain rfl := List.suffix_nil.mp hlast
    exact .opens hquote h
  | inside => cases hscan
  | doubled => cases hscan
  | closes => cases hscan

theorem Alike.map {α β : Type} {T : List Char → List Char → Prop}
    {read read' : Option (α × List Char)} (h : Alike T read read') (f : α → β) :
    Alike T (read.map fun found => (f found.1, found.2))
      (read'.map fun found => (f found.1, found.2)) := by
  cases h with
  | none => exact .none
  | some hsame => exact .some ⟨congrArg f hsame.1, hsame.2⟩

/-- What does not close a quoted text in the first text does not close it in the second. -/
theorem Respaced.not_head {quote : Char} (h : Respaced none text other)
    (hquote : isQuote quote = true) (hhead : text.head? ≠ some quote) :
    other.head? ≠ some quote := by
  rcases h.heads with ⟨-, rfl⟩ | ⟨c, d, text', other', rfl, rfl, -, hd⟩
    | ⟨c, text', other', rfl, rfl, -⟩
  · simp
  · intro heq
    cases heq
    rw [isBlank_of_isQuote hquote] at hd
    cases hd
  · exact hhead

/-- The scan closes a quoted text where its reader does, so the contents agree. -/
theorem Respaced.quoted {quote : Char} (h : Respaced (some quote) text other)
    (hquote : isQuote quote = true) :
    Alike (Respaced none) (quoted? quote text) (quoted? quote other) := by
  generalize hscan : some quote = scan at h
  induction h with
  | done => exact .none
  | gap => cases hscan
  | mark => cases hscan
  | opens => cases hscan
  | inside hc h ih =>
    cases hscan
    rw [quoted?_of_ne hc, quoted?_of_ne hc]
    exact (ih rfl).map (_ :: ·)
  | @doubled _ text other h ih =>
    cases hscan
    have hdoubled : ∀ rest, quoted? quote (quote :: quote :: rest)
        = (quoted? quote rest).map fun read => (quote :: read.1, read.2) := by
      intro rest
      simp [quoted?]
    rw [hdoubled, hdoubled]
    exact (ih rfl).map (quote :: ·)
  | closes hcloses h =>
    cases hscan
    rw [quoted?_closes hcloses, quoted?_closes (h.not_head hquote hcloses)]
    exact .some ⟨rfl, h⟩

theorem literal?_of_blank {c : Char} (h : isBlank c = true) (rest : List Char) :
    literal? (c :: rest) = none := by
  have hstops : Stops (c :: rest) := by
    have hrun : ∀ d ∈ [c], isBlank d = true := by simpa using h
    exact stops_run (List.cons_ne_nil c []) hrun rest
  rw [literal?_of_not_quote (isQuote_of_isBlank h)]
  exact local_unquoted.apart [] (c :: rest) hstops

theorem Respaced.literals (h : Respaced none text other) :
    Alike (Respaced none) (literal? text) (literal? other) := by
  cases h with
  | done => exact .none
  | @gap run run' text other hrun hblank hrun' hblank' =>
    obtain ⟨c, run, rfl⟩ := List.exists_cons_of_ne_nil hrun
    obtain ⟨d, run', rfl⟩ := List.exists_cons_of_ne_nil hrun'
    rw [List.cons_append, List.cons_append, literal?_of_blank (hblank c List.mem_cons_self),
      literal?_of_blank (hblank' d List.mem_cons_self)]
    exact .none
  | @mark c text other hc h =>
    have hquote : isQuote c = false := by
      cases hquote : isQuote c with
      | false => rfl
      | true =>
        rw [breaks_of_isQuote hquote] at hc
        cases hc
    rw [literal?_of_not_quote hquote, literal?_of_not_quote hquote]
    exact local_unquoted.alike shareFront_respaced (.mark hc h)
  | @opens quote text other hquote h =>
    rw [literal?_quote hquote, literal?_quote hquote]
    exact (h.quoted hquote).map fun content =>
      Literal.mk (quotedKind quote content) (String.ofList content)

end

theorem kindred_respaced : Kindred (Respaced none) where
  front := shareFront_respaced
  blanks := Respaced.trimmed
  isEmpty := by
    intro text other h
    rcases h.heads with ⟨rfl, rfl⟩ | ⟨c, d, text', other', rfl, rfl, -⟩
      | ⟨c, text', other', rfl, rfl, -⟩
    · rfl
    · rfl
    · rfl
  literal := Respaced.literals

/-! ## Whole texts -/

theorem rejection_code (source rest : List Char) : (rejection source rest).code
    = if (trimStart rest).isEmpty then Report.Code.unexpectedEnd
      else Report.Code.unexpectedToken := by
  unfold rejection
  simp only
  split
  · rfl
  · rfl

/-- Related texts are read by readers in step as the same value, or rejected with the same code. -/
theorem whole_inStep {α : Type} {T : List Char → List Char → Prop} (hT : Kindred T) {bound : Nat}
    {reader reader' : Reader α} {after : α → Bool} (h : Reader.InStep T bound reader reader' after)
    {source other : List Char} (hrelated : T source other) (hbound : source.length < bound) :
    (reader.whole source).mapError (·.code) = (reader'.whole other).mapError (·.code) := by
  have hrejected : ∀ rest rest', T rest rest' →
      (rejection source rest).code = (rejection other rest').code := by
    intro rest rest' hrest
    rw [rejection_code, rejection_code, hT.isEmpty (hT.blanks hrest)]
  unfold Reader.whole
  rcases (h ⟨source, other, hrelated, hbound⟩ source other (Start.here _)).replies with
    ⟨value, rest, rest', hread, hread', hrest⟩ | ⟨rest, rest', hread, hread', hrest⟩
  · rw [hread, hread']
    simp only [hT.isEmpty (hT.blanks hrest.related)]
    split
    · rfl
    · exact congrArg Except.error (hrejected rest rest' hrest.related)
  · rw [hread, hread']
    exact congrArg Except.error (hrejected rest rest' hrest.related)

/-- A text is read alike by all grammars of sufficient depth. -/
theorem whole_forText {α : Type} {production : Inner → Reader α} {source : List Char}
    (h : ∀ {bound} {inner inner' : Inner}, Inner.InStep Eq bound inner inner' →
      Reader.InStep Eq (bound + 1) (production inner) (production inner') fun _ => true)
    (depth : Nat) :
    (production (forText source)).whole source
      = (production (Inner.ofDepth (source.length + 1 + depth))).whole source := by
  have hinner := Inner.inStep_ofDepth kindred_eq (source.length + 1) 0 depth
  have hbound : source.length < source.length + 1 + 1 := by omega
  have hsame : production (forText source) source
      = production (Inner.ofDepth (source.length + 1 + depth)) source :=
    eq_of_inStep (h hinner) hbound
  unfold Reader.whole
  rw [hsame]

end EntityQuery.Grammar

namespace EntityQuery.Phrase

open Grammar

/-- Texts that differ only in the runs of blanks outside quoted texts are read as the same statement,
and as the same expression, or both are rejected with the same code. -/
theorem ofText_respaced {source other : String}
    (h : Respaced none source.toList other.toList) :
    (Statement.ofText source).mapError (·.code) = (Statement.ofText other).mapError (·.code)
      ∧ (Expression.ofText source).mapError (·.code)
        = (Expression.ofText other).mapError (·.code) := by
  have hdepth : source.toList.length + 1 + other.toList.length
      = other.toList.length + 1 + source.toList.length := by omega
  have hbound : source.toList.length < source.toList.length + 1 + other.toList.length + 1 := by
    omega
  have hinner := Inner.inStep_ofDepth kindred_respaced
    (source.toList.length + 1 + other.toList.length) 0 0
  constructor
  · have hwhole := whole_inStep kindred_respaced (statement_inStep kindred_respaced hinner) h hbound
    unfold Statement.ofText
    rw [whole_forText (fun hinner => statement_inStep kindred_eq hinner) other.toList.length,
      whole_forText (fun hinner => statement_inStep kindred_eq hinner) source.toList.length,
      ← hdepth]
    exact hwhole
  · have hwhole := whole_inStep kindred_respaced (concatenation_inStep kindred_respaced hinner) h
      hbound
    unfold Expression.ofText
    rw [whole_forText (fun hinner => concatenation_inStep kindred_eq hinner) other.toList.length,
      whole_forText (fun hinner => concatenation_inStep kindred_eq hinner) source.toList.length,
      ← hdepth]
    exact hwhole

/-- A query with a quoted text, on one line. -/
def oneLineText : String := "from Shelf where label='a  b'"

/-- The same query, on three lines. -/
def threeLineText : String := "from Shelf\n\twhere\nlabel='a  b'"

theorem ofText_respaced_shelves :
    Respaced none oneLineText.toList threeLineText.toList
      ∧ (Statement.ofText oneLineText).isOk = true
      ∧ (Statement.ofText oneLineText).mapError (·.code)
        = (Statement.ofText threeLineText).mapError (·.code) := by
  let content : List Char := [singleQuote, 'a', ' ', ' ', 'b', singleQuote]
  have hcontent : Respaced none content content :=
    .opens (by decide) (.inside (by decide) (.inside (by decide) (.inside (by decide)
      (.inside (by decide) (.closes (by decide) (.done none))))))
  have hspace : ∀ c ∈ [' '], Text.isBlank c = true := List.all_eq_true.mp (by decide)
  have hbreak : ∀ c ∈ ['\n'], Text.isBlank c = true := List.all_eq_true.mp (by decide)
  have hindent : ∀ c ∈ ['\n', '\t'], Text.isBlank c = true := List.all_eq_true.mp (by decide)
  have hends (first : Char) (rest : List Char) (hfirst : Text.isBlank first = false) :
      ∀ c ∈ (first :: rest).head?, Text.isBlank c = false := by
    rintro c ⟨rfl⟩
    exact hfirst
  have hlabel : Respaced none ("label=".toList ++ content) ("label=".toList ++ content) :=
    hcontent.marks (by decide)
  have hwhere : Respaced none ("where".toList ++ ([' '] ++ ("label=".toList ++ content)))
      ("where".toList ++ (['\n'] ++ ("label=".toList ++ content))) :=
    (hlabel.gap (by decide) hspace (by decide) hbreak (hends 'l' _ (by decide))).marks (by decide)
  have hshelf : Respaced none
      ("Shelf".toList ++ ([' '] ++ ("where".toList ++ ([' '] ++ ("label=".toList ++ content)))))
      ("Shelf".toList
        ++ (['\n', '\t'] ++ ("where".toList ++ (['\n'] ++ ("label=".toList ++ content))))) :=
    (hwhere.gap (by decide) hspace (by decide) hindent (hends 'w' _ (by decide))).marks (by decide)
  have hfrom : Respaced none
      ("from".toList ++ ([' '] ++ ("Shelf".toList
        ++ ([' '] ++ ("where".toList ++ ([' '] ++ ("label=".toList ++ content)))))))
      ("from".toList ++ ([' '] ++ ("Shelf".toList
        ++ (['\n', '\t'] ++ ("where".toList ++ (['\n'] ++ ("label=".toList ++ content))))))) :=
    (hshelf.gap (by decide) hspace (by decide) hspace (hends 'S' _ (by decide))).marks (by decide)
  have hrespaced : Respaced none oneLineText.toList threeLineText.toList := hfrom
  have hread : (Statement.ofText oneLineText).isOk = true := by decide +kernel
  exact ⟨hrespaced, hread, (ofText_respaced hrespaced).1⟩

end EntityQuery.Phrase

import EntityQuery.Proofs.RejectedTexts

/-!
# The recursion of the grammar

The grammar of the program is the recursion of its productions, and the recursion descends: on a
text a production calls lower levels on ends of the text, and enters the grammar again on shorter
ends. So neither the depth of a text nor the number of rounds of a loop is ever used up.

* `grammar`: the table of the levels, each at the depth of its text.
* `unfoldOver_grammar`: which answers a production asks for.
* `grammar_unfold`, `eq_grammar_iff`: the grammar solves its equations, and nothing else does.
* `fix_eq_grammar`: it is the recursion along the order of calls.
* `repeats_iff`: a loop whose rounds shorten the text is determined by its rounds.
* `grammar_wellFounded`: the recursion of a statement and of an expression, with what the
  productions and the rounds of the loops leave of a text.
-/

namespace EntityQuery.Grammar

open EntityQuery.Phrase

namespace Reader

variable {α : Type}

/-- The reader reads something of the text, or fails at an end of the text. -/
abbrev Consumes (reader : Reader α) (text : List Char) : Prop := reader.Leaves (fun _ => true) text

/-- Where a round offers something, it has read something of the text. -/
abbrev Shortens (round : Reader (Option α)) (text : List Char) : Prop :=
  round.Leaves Option.isSome text

end Reader

open Reader (Leaves Repeats chain chainUpTo)

/-! ## Ends of a text -/

/-- Both texts are the same end of the whole. -/
def EndOf (whole text other : List Char) : Prop := text = other ∧ text <:+ whole

theorem kindred_endOf (whole : List Char) : Kindred (EndOf whole) :=
  kindred_of_eq (fun _ _ h => h.1) fun _ _ h hsuffix => ⟨rfl, hsuffix.trans h.2⟩

section

variable {whole : List Char} {bound : Nat}

/-- Readers that answer alike on the ends of a text keep step there. -/
theorem inStep_of_agree {α : Type} {reader reader' : Reader α} {after : α → Bool}
    (h : ∀ rest, rest <:+ whole → rest.length < bound →
      reader rest = reader' rest ∧ reader'.Leaves after rest) :
    Reader.InStep (EndOf whole) bound reader reader' after := by
  apply Reader.inStep_of_replies
  rintro ⟨text, _, ⟨rfl, hsuffix⟩, hbound⟩
  obtain ⟨hagree, hleaves⟩ := h text hsuffix hbound
  show Reply.Paced _ _ (reader text) (reader' text)
  rw [hagree]
  cases hread : reader' text with
  | ok value rest =>
    have hleft := hleaves.ok hread
    exact .ok ⟨⟨rfl, hleft.1.trans hsuffix⟩, hleft, hleft⟩
  | fail rest =>
    have hleft := hleaves.fail hread
    exact .fail ⟨⟨rfl, hleft.1.trans hsuffix⟩, hleft, hleft⟩

theorem Table.inner_inStep {T : List Char → List Char → Prop} {table other : Table}
    (h : ∀ level, Reader.InStep T bound (table level) (other level) fun _ => true) :
    Inner.InStep T bound table.inner other.inner :=
  ⟨h .predicate, h .negatable, h .expression, h .signed, h .query, h .instantiation⟩

end

/-! ## The grammar -/

/-- The levels of the grammar, each over the readers that its text does not exhaust. -/
def grammar : Table := fun level text => production (forText text) level text

/-- Whatever lies below a depth that the length of the text does not exceed, the text is read by the
grammar: the bottom is never asked. -/
theorem production_iterate (base : Inner) {depth : Nat} (level : Level) {text : List Char}
    (hdepth : text.length ≤ depth) :
    production (Inner.layer^[depth] base) level text = grammar level text := by
  have hkindred := kindred_endOf text
  have hinner :
      Inner.InStep (EndOf text) text.length (Inner.layer^[depth] base) (forText text) := by
    rw [forText, Inner.ofDepth_eq_iterate]
    exact Inner.inStep_iterate hkindred _ _ hdepth (Nat.le_succ _)
  exact (production_inStep hkindred hinner level).reply_eq ⟨rfl, List.suffix_refl text⟩
    (Nat.lt_succ_self _) fun _ _ h => h.1

theorem grammar_consumes (level : Level) (text : List Char) : (grammar level).Consumes text := by
  have hkindred := kindred_endOf text
  have hinner : Inner.InStep (EndOf text) text.length (forText text) (forText text) := by
    rw [forText, Inner.ofDepth_eq_iterate]
    exact Inner.inStep_iterate hkindred _ _ (Nat.le_succ _) (Nat.le_succ _)
  have hleaves := (production_inStep hkindred hinner level).leaves ⟨rfl, List.suffix_refl text⟩
    (Nat.lt_succ_self _)
  exact ⟨hleaves.ok, hleaves.fail⟩

/-- A reader that answers like a level of the grammar keeps step with it. -/
theorem inStep_grammar {whole : List Char} {bound : Nat} {level : Level}
    {reader : Reader level.Result}
    (h : ∀ rest, rest <:+ whole → rest.length < bound → reader rest = grammar level rest) :
    Reader.InStep (EndOf whole) bound reader (grammar level) fun _ => true :=
  inStep_of_agree fun rest hsuffix hbound =>
    ⟨h rest hsuffix hbound, grammar_consumes level rest⟩

theorem inner_inStep_grammar (whole : List Char) (bound : Nat) :
    Inner.InStep (EndOf whole) bound grammar.inner grammar.inner :=
  Table.inner_inStep fun _ => inStep_grammar fun _ _ _ => rfl

section

variable {level : Level} {text : List Char} {lower inside : Table}
  (hlower : ∀ (callee : Level) (rest : List Char), callee.rank < level.rank → rest <:+ text →
    lower callee rest = grammar callee rest)
  (hinside : ∀ (callee : Level) (rest : List Char), rest <:+ text → rest.length < text.length →
    inside callee rest = grammar callee rest)
include hlower hinside

theorem unfoldOver_eq_unfold :
    lower.unfoldOver inside.inner level text = grammar.unfold level text := by
  have hbody : Reader.InStep (EndOf text) (text.length + 1)
      (lower.unfoldOver inside.inner level) (grammar.unfold level) fun _ => true := by
    apply Table.unfoldOver_inStep (kindred_endOf text)
    · intro callee hrank
      exact inStep_grammar fun rest hsuffix _ => hlower callee rest hrank hsuffix
    · apply Table.inner_inStep
      intro callee
      exact inStep_grammar fun rest hsuffix hshort => hinside callee rest hsuffix hshort
  exact hbody.reply_eq ⟨rfl, List.suffix_refl text⟩ (Nat.lt_succ_self _) fun _ _ h => h.1

end

/-- The grammar solves the equations of its productions. -/
theorem grammar_unfold : grammar.unfold = grammar := by
  funext level text
  have hdepth : ∀ (depth : Nat) (callee : Level) (rest : List Char), rest.length ≤ depth →
      production (Inner.ofDepth depth) callee rest = grammar callee rest := by
    intro depth callee rest hle
    rw [Inner.ofDepth_eq_iterate]
    exact production_iterate _ callee hle
  have hbody : (production (forText text)).unfoldOver (production (Inner.ofDepth text.length)).inner
      level text = grammar.unfold level text := by
    apply unfoldOver_eq_unfold
    · intro callee rest _ hsuffix
      have hle := hsuffix.length_le
      exact hdepth _ callee rest (by omega)
    · intro callee rest _ hshort
      exact hdepth _ callee rest hshort.le
  rw [← hbody, production_inner]
  exact congrFun (congrFun (production_eq_unfoldOver (forText text)).symm level) text

/-- What a production answers on a text is decided by what lower levels answer on ends of the text
and what the grammar answers on shorter ends. -/
theorem unfoldOver_grammar {level : Level} {text : List Char} {lower inside : Table}
    (hlower : ∀ (callee : Level) (rest : List Char), callee.rank < level.rank → rest <:+ text →
      lower callee rest = grammar callee rest)
    (hinside : ∀ (callee : Level) (rest : List Char), rest <:+ text → rest.length < text.length →
      inside callee rest = grammar callee rest) :
    lower.unfoldOver inside.inner level text = grammar level text := by
  rw [unfoldOver_eq_unfold hlower hinside, grammar_unfold]

/-! ## The recursion along the order of calls -/

/-- The answers that precede a call in the order of calls decide its answer. -/
theorem unfold_grammar {table : Table} {entry : Entry}
    (h : ∀ callee : Entry, callee.Precedes entry →
      table callee.level callee.text = grammar callee.level callee.text) :
    table.unfold entry.level entry.text = grammar entry.level entry.text := by
  apply unfoldOver_grammar
  · intro callee rest hrank hsuffix
    exact h ⟨callee, rest⟩ (Entry.precedes_of_rank hsuffix hrank)
  · intro callee rest hsuffix hshort
    exact h ⟨callee, rest⟩ (Entry.precedes_of_shorter hsuffix hshort)

theorem eq_grammar_iff (table : Table) : table.unfold = table ↔ table = grammar := by
  constructor
  · intro hsolves
    have hentries : ∀ entry : Entry,
        table entry.level entry.text = grammar entry.level entry.text := by
      intro entry
      induction entry using Entry.precedes_wellFounded.induction with
      | _ entry ih =>
        rw [← unfold_grammar ih, hsolves]
    funext level text
    exact hentries ⟨level, text⟩
  · rintro rfl
    exact grammar_unfold

theorem fix_eq_grammar (entry : Entry) :
    Entry.precedes_wellFounded.fix Entry.step entry = grammar entry.level entry.text := by
  induction entry using Entry.precedes_wellFounded.induction with
  | _ entry ih =>
    rw [WellFounded.fix_eq]
    apply unfold_grammar
    intro callee hprecedes
    rw [dif_pos hprecedes]
    exact ih callee hprecedes

/-- The levels over the readers of the grammar are the grammar. -/
theorem production_grammar : production grammar.inner = grammar := by
  funext level text
  induction hrank : level.rank using Nat.strong_induction_on generalizing level text with
  | _ rank ih =>
    rw [production_eq_unfoldOver]
    apply unfoldOver_grammar
    · intro callee rest hlower _
      exact ih callee.rank (hrank ▸ hlower) callee rest rfl
    · intro _ _ _ _
      rfl

/-! ## Loops -/

section

variable {α : Type} {round : α → Reader (Option α)}
  (h : ∀ value text, (round value).Shortens text)
include h

/-- Rounds that are more than the characters of the text are not used up. -/
theorem chainUpTo_eq_chain {rounds : Nat} {text : List Char} (hrounds : text.length < rounds)
    (value : α) : chainUpTo round rounds value text = chain round value text := by
  have hround : ∀ value, Reader.InStep (EndOf text) (text.length + 1) (round value) (round value)
      Option.isSome :=
    fun value => inStep_of_agree fun rest _ _ => ⟨rfl, h value rest⟩
  let start : Start (EndOf text) (text.length + 1) :=
    ⟨text, text, ⟨rfl, List.suffix_refl text⟩, Nat.lt_succ_self _⟩
  have hreplies := Reader.chainUpTo_paced hround rounds (text.length + 1) value text text start.here
    hrounds (Nat.lt_succ_self _)
  exact hreplies.eq fun _ _ h => h.1

theorem chain_repeats : Repeats round (chain round) := by
  intro value
  funext text
  unfold chain
  rw [chainUpTo]
  cases hread : round value text with
  | fail rest => rw [Reader.bind_fail hread, Reader.bind_fail hread]
  | ok next? rest =>
    rw [Reader.bind_ok hread, Reader.bind_ok hread]
    cases next? with
    | none => rfl
    | some next => exact chainUpTo_eq_chain h (((h value text).ok hread).2 rfl) next

/-- A loop whose rounds shorten the text goes on as its rounds say in one way only. -/
theorem repeats_iff (run : α → Reader α) : Repeats round run ↔ run = chain round := by
  constructor
  · intro hrun
    funext value text
    induction hlength : text.length using Nat.strong_induction_on generalizing value text with
    | _ length ih =>
      rw [hrun value, chain_repeats h value]
      cases hread : round value text with
      | fail rest => rw [Reader.bind_fail hread, Reader.bind_fail hread]
      | ok next? rest =>
        rw [Reader.bind_ok hread, Reader.bind_ok hread]
        cases next? with
        | none => rfl
        | some next =>
          have hshort : rest.length < text.length := ((h value text).ok hread).2 rfl
          exact ih rest.length (hlength ▸ hshort) next rest rfl
  · rintro rfl
    exact chain_repeats h

end

/-! ## Joins -/

theorem joinOpening_none {text rest : List Char} (h : joinOpening text = .ok none rest) :
    rest = text := by
  unfold joinOpening at h
  obtain ⟨type?, mid, -, h⟩ := Reader.of_bind_ok h
  obtain ⟨found, last, -, h⟩ := Reader.of_bind_ok h
  cases found with
  | true => cases h
  | false =>
    cases type? with
    | some type => cases h
    | none =>
      cases h
      rfl

/-- Where there is no join, nothing is read. -/
theorem join?_none {inner : Inner} {text rest : List Char} (h : join? inner text = .ok none rest) :
    rest = text := by
  unfold join? at h
  obtain ⟨cross, mid, hcross, h⟩ := Reader.of_bind_ok h
  cases cross with
  | true =>
    obtain ⟨-, last, -, h⟩ := Reader.of_bind_ok h
    obtain ⟨root, last, -, h⟩ := Reader.of_bind_ok h
    cases h
  | false =>
    change (joinOpening >>= _) mid = _ at h
    obtain ⟨type?, last, hopening, h⟩ := Reader.of_bind_ok h
    cases type? with
    | none =>
      cases h
      exact (joinOpening_none hopening).trans (Reader.accepts_false hcross)
    | some type =>
      obtain ⟨fetch, last, -, h⟩ := Reader.of_bind_ok h
      obtain ⟨target, last, -, h⟩ := Reader.of_bind_ok h
      obtain ⟨alias?, last, -, h⟩ := Reader.of_bind_ok h
      obtain ⟨predicate, last, -, h⟩ := Reader.of_bind_ok h
      cases h

/-! ## Descent -/

/-- The recursion of the table descends along the order of calls. -/
structure Table.Descends (table : Table) : Prop where
  /-- A production calls lower levels on ends of its text, and enters the grammar again on ends that
  are shorter. Whatever is answered elsewhere, the production answers the same. -/
  calls : ∀ (level : Level) (text : List Char) (lower inside : Table),
    (∀ (callee : Level) (rest : List Char), callee.rank < level.rank → rest <:+ text →
      lower callee rest = table callee rest) →
    (∀ (callee : Level) (rest : List Char), rest <:+ text → rest.length < text.length →
      inside callee rest = table callee rest) →
    lower.unfoldOver inside.inner level text = table level text
  /-- The recursion is well founded, and the table is what it computes. -/
  recursion : ∀ (level : Level) (text : List Char),
    table level text = Entry.precedes_wellFounded.fix Entry.step ⟨level, text⟩
  /-- The bodies of the productions as equations have one solution, which is the table. -/
  solution : ∀ other : Table, other.unfold = other ↔ other = table
  /-- Layers of the grammar that are as many as the characters of the text answer like the table,
  whatever lies below them. -/
  depth : ∀ (base : Inner) (layers : Nat) (level : Level) (text : List Char), text.length ≤ layers →
    production (Inner.layer^[layers] base) level text = table level text

/-- What the levels, the joins and the lists leave of a text is an end of it, also where they fail.
Behind a value it is shorter; without a join it is the text. -/
structure Table.Consuming (table : Table) : Prop where
  levels : ∀ level text, (table level).Consumes text
  join : ∀ text, (join? table.inner).Shortens text
  join_none : ∀ text rest, join? table.inner text = .ok none rest → rest = text
  arguments : ∀ text, (arguments table.inner).Consumes text
  selectItems : ∀ text, (selectItems table.inner).Consumes text
  spaces : ∀ text, (spaces table.inner).Consumes text
  sortItems : ∀ text, (orderClause table.inner).Consumes text
  assignments : ∀ text,
    (Reader.separated (sign ",") (assignment table.inner)).Consumes text
  stateFields : ∀ text, (Reader.separated (sign ",") dottedIdentifier).Consumes text

/-- Every round of a loop shortens the text or ends the loop, so the rounds determine the loop. -/
structure Inner.LoopsDescend (inner : Inner) : Prop where
  shortens : ∀ (loop : Loop) (carried : loop.Carried) (text : List Char),
    (loop.round inner carried).Shortens text
  repeats : ∀ (loop : Loop) (run : loop.Carried → Reader loop.Carried),
    Repeats (loop.round inner) run ↔ run = chain (loop.round inner)
  inPlace : Loop.InPlace inner fun loop => chain (loop.round inner)

theorem grammar_descends : grammar.Descends where
  calls _ _ _ _ := unfoldOver_grammar
  recursion level text := (fix_eq_grammar ⟨level, text⟩).symm
  solution := eq_grammar_iff
  depth base _ level _ := production_iterate base level

theorem leaves_of_inStep {α : Type} {reader : Reader α} {after : α → Bool}
    (h : ∀ whole bound, Kindred (EndOf whole) →
      Inner.InStep (EndOf whole) (bound + 1) grammar.inner grammar.inner →
      Reader.InStep (EndOf whole) (bound + 1) reader reader after) (text : List Char) :
    reader.Leaves after text :=
  (h text text.length (kindred_endOf text) (inner_inStep_grammar text _)).leaves
    ⟨rfl, List.suffix_refl text⟩ (Nat.lt_succ_self _)

theorem grammar_consuming : grammar.Consuming where
  levels := grammar_consumes
  join := leaves_of_inStep fun _ bound hT h => join?_inStep hT (h.mono (Nat.le_succ bound))
  join_none _ _ := join?_none
  arguments := leaves_of_inStep fun _ _ hT h => arguments_inStep hT h
  selectItems :=
    leaves_of_inStep fun _ bound hT h => selectItems_inStep hT (h.mono (Nat.le_succ bound))
  spaces := leaves_of_inStep fun _ bound hT h => spaces_inStep hT (h.mono (Nat.le_succ bound))
  sortItems :=
    leaves_of_inStep fun _ bound hT h => orderClause_inStep hT (h.mono (Nat.le_succ bound))
  assignments := leaves_of_inStep fun _ bound hT h =>
    Reader.InStep.separated (fun _ => sign_paced hT (by decide)) rfl
      (assignment_inStep hT (h.mono (Nat.le_succ bound)))
  stateFields := leaves_of_inStep fun _ _ hT _ =>
    Reader.InStep.separated (fun _ => sign_paced hT (by decide)) rfl
      fun _ => dottedIdentifier_paced hT

theorem loop_shortens (loop : Loop) (carried : loop.Carried) (text : List Char) :
    (loop.round grammar.inner carried).Shortens text :=
  leaves_of_inStep (fun _ _ hT h => Loop.round_inStep hT h loop carried) text

theorem whole_congr {α : Type} {reader reader' : Reader α} {source : List Char}
    (h : reader source = reader' source) : reader.whole source = reader'.whole source := by
  unfold Reader.whole
  rw [h]

theorem grammar_loops : grammar.inner.LoopsDescend where
  shortens := loop_shortens
  repeats loop := repeats_iff (loop_shortens loop)
  inPlace := loops_inPlace grammar.inner

/-- Statements and expressions are read by the grammar, and the recursion of the grammar is well
founded on what is left of the text and the rank of the production. A production enters the grammar
again on a shorter end of its text; what it leaves of the text is an end of it, and a shorter one
if it succeeds; and every round of a loop makes the text shorter. -/
theorem grammar_wellFounded (source : String) :
    Statement.ofText source = (grammar .statement).whole source.toList
      ∧ Expression.ofText source = (grammar .expression).whole source.toList
      ∧ grammar.Descends
      ∧ grammar.Consuming
      ∧ production grammar.inner = grammar
      ∧ grammar.inner.LoopsDescend :=
  ⟨whole_congr rfl, whole_congr rfl, grammar_descends, grammar_consuming, production_grammar,
    grammar_loops⟩

end EntityQuery.Grammar

import EntityQuery.Proofs.GrammarLevels
import EntityQuery.Proofs.TokenExtent

/-!
# Readers in step

Two readers are run on two texts that are alike up to a relation. They keep step if they read the
same value, or both fail, and what is left of the texts is again alike. On the way it is counted
whether something has been read since a production began. The grammar may be entered again once
something has been read: then the first text is shorter than it was at the beginning.

* `Kindred`: a relation of texts that every token respects.
* `Start`, `Start.At`: the texts where a production begins, and two places behind them.
* `Reader.Leaves`: what a reader leaves of a text.
* `Reader.Paced`, `Reader.InStep`: two readers that keep step behind a start, and behind every start
  whose first text has fewer characters than a bound.
* `paced_bind`, `paced_accepting`, `paced_optional`, `paced_chain`, `paced_many`,
  `InStep.separated`: readers that are put together.
* `InStep.call`, `InStep.enter`: a production that begins within another one, at the same bound, and
  at a smaller bound once something has been read.
-/

namespace EntityQuery.Grammar

open EntityQuery.Phrase EntityQuery.Text

/-! ## Related texts -/

/-- The same is answered for both texts, and what is left of them is related. -/
def Alike {α : Type} (T : List Char → List Char → Prop) :
    Option (α × List Char) → Option (α × List Char) → Prop :=
  Option.Rel fun read other => read.1 = other.1 ∧ T read.2 other.2

/-- Related texts begin with the same characters up to the next blank or quote, and are related from
each of them on. -/
def ShareFront (T : List Char → List Char → Prop) : Prop :=
  ∀ text other, T text other → ∃ front rest rest', text = front ++ rest ∧ other = front ++ rest'
    ∧ Stops rest ∧ Stops rest' ∧ ∀ last, last <:+ front → T (last ++ rest) (last ++ rest')

/-- Related texts begin with the same token, whatever the token, and are related again behind it. -/
structure Kindred (T : List Char → List Char → Prop) : Prop where
  front : ShareFront T
  blanks : ∀ {text other}, T text other → T (trimStart text) (trimStart other)
  isEmpty : ∀ {text other}, T text other → text.isEmpty = other.isEmpty
  literal : ∀ {text other}, T text other → Alike T (literal? text) (literal? other)

section

variable {T : List Char → List Char → Prop} {text other : List Char}

theorem Local.alike {α : Type} {read? : List Char → Option (α × List Char)} (h : Local read?)
    (hT : ShareFront T) (hrelated : T text other) : Alike T (read? text) (read? other) := by
  obtain ⟨front, rest, rest', rfl, rfl, hrest, hrest', hback⟩ := hT text other hrelated
  rw [h.apart front rest hrest, h.apart front rest' hrest']
  cases hread : read? front with
  | none => exact .none
  | some read =>
    obtain ⟨value, last⟩ := read
    exact .some ⟨rfl, hback last (h.left hread).1⟩

theorem Alike.isSome_eq {α : Type} {read read' : Option (α × List Char)} (h : Alike T read read') :
    read.isSome = read'.isSome := by
  cases h with
  | none => rfl
  | some h => rfl

end

/-- The test cannot tell related texts apart. -/
def Respects (T : List Char → List Char → Prop) (test : List Char → Bool) : Prop :=
  ∀ text other, T text other → test text = test other

/-! ## Places in two texts -/

/-- Two related texts where a production begins, the first with fewer characters than the bound. -/
structure Start (T : List Char → List Char → Prop) (bound : Nat) where
  text : List Char
  other : List Char
  related : T text other
  bounded : text.length < bound

/-- Two related ends of the texts, behind something that is read of both if that is said. -/
structure Start.At {T : List Char → List Char → Prop} {bound : Nat} (start : Start T bound)
    (moved : Bool) (text other : List Char) : Prop where
  related : T text other
  left : Left moved start.text text
  left' : Left moved start.other other

section

variable {T : List Char → List Char → Prop} {bound : Nat} {start : Start T bound}
  {moved further : Bool} {text other rest rest' : List Char}

theorem Start.here (start : Start T bound) : start.At false start.text start.other :=
  ⟨start.related, Left.refl _, Left.refl _⟩

theorem Start.At.weaken (h : start.At moved text other) (himp : further = true → moved = true) :
    start.At further text other :=
  ⟨h.related, h.left.weaken himp, h.left'.weaken himp⟩

theorem Start.At.next (h : start.At moved text other) (hrelated : T rest rest')
    (hleft : Left further text rest) (hleft' : Left further other rest') :
    start.At (moved || further) rest rest' :=
  ⟨hrelated, h.left.trans hleft, h.left'.trans hleft'⟩

/-- A production begins anew at a place behind the start. -/
def Start.At.anew (h : start.At moved text other) : Start T bound :=
  ⟨text, other, h.related, Nat.lt_of_le_of_lt h.left.length_le start.bounded⟩

/-- A place behind something that is read lies at a smaller bound. -/
def Start.At.lower {start : Start T (bound + 1)} (h : start.At true text other) : Start T bound :=
  ⟨text, other, h.related,
    Nat.lt_of_lt_of_le (h.left.2 rfl) (Nat.le_of_lt_succ start.bounded)⟩

end

/-! ## Readers in step -/

/-- Two replies with the same value, or two failures, at places behind the start. Whether something
has been read may depend on the value. -/
inductive Reply.Paced {α : Type} {T : List Char → List Char → Prop} {bound : Nat}
    (start : Start T bound) (after : α → Bool) : Reply α → Reply α → Prop where
  | ok {value : α} {rest rest' : List Char} (h : start.At (after value) rest rest') :
    Reply.Paced start after (.ok value rest) (.ok value rest')
  | fail {rest rest' : List Char} (h : start.At false rest rest') :
    Reply.Paced start after (.fail rest) (.fail rest')

theorem Reply.Paced.replies {α : Type} {T : List Char → List Char → Prop} {bound : Nat}
    {start : Start T bound} {after : α → Bool} {reply reply' : Reply α}
    (h : Reply.Paced start after reply reply') :
    (∃ value rest rest', reply = .ok value rest ∧ reply' = .ok value rest'
        ∧ start.At (after value) rest rest')
      ∨ ∃ rest rest', reply = .fail rest ∧ reply' = .fail rest' ∧ start.At false rest rest' := by
  cases h with
  | ok h => exact .inl ⟨_, _, _, rfl, rfl, h⟩
  | fail h => exact .inr ⟨_, _, rfl, rfl, h⟩

/-- If only equal texts are related, then replies in step are equal. -/
theorem Reply.Paced.eq {α : Type} {T : List Char → List Char → Prop} {bound : Nat}
    {start : Start T bound} {after : α → Bool} {reply reply' : Reply α}
    (hT : ∀ text other, T text other → text = other) (h : Reply.Paced start after reply reply') :
    reply = reply' := by
  rcases h.replies with
    ⟨value, rest, rest', rfl, rfl, hrest⟩ | ⟨rest, rest', rfl, rfl, hrest⟩
  · rw [hT rest rest' hrest.related]
  · rw [hT rest rest' hrest.related]

/-- What keeps step behind a place keeps step behind what lies before it. -/
theorem Reply.Paced.behind {α : Type} {T : List Char → List Char → Prop} {bound : Nat}
    {start : Start T bound} {moved : Bool} {text other : List Char} {after : α → Bool}
    {reply reply' : Reply α} (hat : start.At moved text other)
    (h : Reply.Paced hat.anew after reply reply') :
    Reply.Paced start (fun value => moved || after value) reply reply' := by
  rcases h.replies with
    ⟨value, rest, rest', rfl, rfl, hrest⟩ | ⟨rest, rest', rfl, rfl, hrest⟩
  · exact .ok (hat.next hrest.related hrest.left hrest.left')
  · refine .fail ((hat.next hrest.related hrest.left hrest.left').weaken fun h => ?_)
    cases h

namespace Reader

/-- What the reader leaves of the text is an end of it, and a shorter one behind a value of which
`after` says so. -/
structure Leaves {α : Type} (after : α → Bool) (reader : Reader α) (text : List Char) : Prop where
  ok : ∀ {value rest}, reader text = .ok value rest → Left (after value) text rest
  fail : ∀ {rest}, reader text = .fail rest → Left false text rest

/-- The readers keep step at all places behind the start, where something has been read if `moved`
says so; behind a value `after` says so. -/
def Paced {α : Type} {T : List Char → List Char → Prop} {bound : Nat} (start : Start T bound)
    (moved : Bool) (reader reader' : Reader α) (after : α → Bool) : Prop :=
  ∀ text other, start.At moved text other →
    Reply.Paced start after (reader text) (reader' other)

/-- The readers keep step from wherever the first text has fewer characters than the bound. -/
def InStep {α : Type} (T : List Char → List Char → Prop) (bound : Nat) (reader reader' : Reader α)
    (after : α → Bool) : Prop :=
  ∀ start : Start T bound, Paced start false reader reader' after

section

variable {α β : Type} {T : List Char → List Char → Prop} {bound : Nat} {start : Start T bound}
  {moved : Bool} {reader reader' : Reader α} {after : α → Bool} {after' : β → Bool}

/-! ## One part after another -/

theorem paced_pure {value : α} (h : after value = true → moved = true) :
    Paced start moved (pure value) (pure value) after := by
  intro text other hat
  exact .ok (hat.weaken h)

theorem paced_fail : Paced start moved (fail : Reader α) fail after := by
  intro text other hat
  exact .fail (hat.weaken fun h => by cases h)

/-- A failure is set back to the start. -/
theorem paced_failAt :
    Paced start moved (failAt start.text : Reader α) (failAt start.other) after := by
  intro text other _
  exact .fail start.here

theorem paced_backTo {value : α} (h : after value = false) :
    Paced start moved (backTo start.text value) (backTo start.other value) after := by
  intro text other _
  refine .ok ?_
  rw [h]
  exact start.here

theorem paced_weaken {further : α → Bool} (h : Paced start moved reader reader' after)
    (himp : ∀ value, further value = true → after value = true) :
    Paced start moved reader reader' further := by
  intro text other hat
  rcases (h text other hat).replies with
    ⟨value, rest, rest', hread, hread', hrest⟩ | ⟨rest, rest', hread, hread', hrest⟩
  · rw [hread, hread']
    exact .ok (hrest.weaken (himp value))
  · rw [hread, hread']
    exact .fail hrest

theorem paced_bind {next next' : α → Reader β} (h : Paced start moved reader reader' after)
    (hnext : ∀ value, Paced start (after value) (next value) (next' value) after') :
    Paced start moved (reader >>= next) (reader' >>= next') after' := by
  intro text other hat
  rcases (h text other hat).replies with
    ⟨value, rest, rest', hread, hread', hrest⟩ | ⟨rest, rest', hread, hread', hrest⟩
  · rw [bind_ok hread, bind_ok hread']
    exact hnext value rest rest' hrest
  · rw [bind_fail hread, bind_fail hread']
    exact .fail hrest

/-- A value is made of what is read, and something is read with it. -/
theorem paced_returning {value : α → β} (h : Paced start moved reader reader' fun _ => true) :
    Paced start moved (reader >>= fun read => pure (value read))
      (reader' >>= fun read => pure (value read)) after' := by
  apply paced_bind h
  intro read
  exact paced_pure fun _ => rfl

/-- A production that begins behind the start. -/
theorem InStep.call (h : InStep T bound reader reader' after) :
    Paced start moved reader reader' fun value => moved || after value := by
  intro text other hat
  exact (h hat.anew text other hat.anew.here).behind hat

theorem Paced.reply (h : Paced start false reader reader' after) :
    Reply.Paced start after (reader start.text) (reader' start.other) :=
  h start.text start.other start.here

/-- It is enough to look at the replies from where the production begins. -/
theorem inStep_of_replies (h : ∀ start : Start T bound,
    Reply.Paced start after (reader start.text) (reader' start.other)) :
    InStep T bound reader reader' after := by
  intro start text other hat
  exact (h hat.anew).behind hat

section

variable {text other : List Char} (h : InStep T bound reader reader' after)
  (hrelated : T text other) (hbound : text.length < bound)
include h hrelated hbound

theorem InStep.leaves : Leaves after reader text := by
  rcases (h ⟨text, other, hrelated, hbound⟩).reply.replies with
    ⟨value, rest, rest', hread, -, hrest⟩ | ⟨rest, rest', hread, -, hrest⟩
  · constructor
    · intro value' last hlast
      cases hread.symm.trans hlast
      exact hrest.left
    · intro last hlast
      cases hread.symm.trans hlast
  · constructor
    · intro value last hlast
      cases hread.symm.trans hlast
    · intro last hlast
      cases hread.symm.trans hlast
      exact hrest.left

/-- If only equal texts are related, then readers that keep step answer alike. -/
theorem InStep.reply_eq (hT : ∀ text other, T text other → text = other) :
    reader text = reader' text := by
  obtain rfl := hT text other hrelated
  exact (h ⟨text, text, hrelated, hbound⟩).reply.eq hT

end

/-- Readers that keep step below a bound keep step below a smaller one. -/
theorem InStep.mono {further : Nat} (h : InStep T further reader reader' after)
    (hle : bound ≤ further) : InStep T bound reader reader' after := by
  apply inStep_of_replies
  intro start
  have hreplies := (h ⟨start.text, start.other, start.related, start.bounded.trans_le hle⟩).reply
  rcases hreplies.replies with
    ⟨value, rest, rest', hread, hread', hrest⟩ | ⟨rest, rest', hread, hread', hrest⟩
  · rw [hread, hread']
    exact .ok ⟨hrest.related, hrest.left, hrest.left'⟩
  · rw [hread, hread']
    exact .fail ⟨hrest.related, hrest.left, hrest.left'⟩

/-- A production of a smaller bound may begin once something has been read. -/
theorem InStep.enter {start : Start T (bound + 1)} (h : InStep T bound reader reader' after) :
    Paced start true reader reader' fun _ => true := by
  intro text other hat
  rcases (h hat.lower text other hat.lower.here).replies with
    ⟨value, rest, rest', hread, hread', hrest⟩ | ⟨rest, rest', hread, hread', hrest⟩
  · rw [hread, hread']
    exact .ok (hat.next hrest.related hrest.left hrest.left')
  · rw [hread, hread']
    refine .fail ((hat.next hrest.related hrest.left hrest.left').weaken fun h => ?_)
    cases h

/-! ## Choices -/

theorem paced_accepts {token token' : Reader Unit} {read : Unit → Bool}
    (h : Paced start moved token token' read) :
    Paced start moved (accepts token) (accepts token') fun found =>
      if found then read () else moved := by
  intro text other hat
  rcases (h text other hat).replies with
    ⟨value, rest, rest', hread, hread', hrest⟩ | ⟨rest, rest', hread, hread', -⟩
  · rw [accepts_ok hread, accepts_ok hread']
    exact .ok hrest
  · rw [accepts_fail hread, accepts_fail hread']
    exact .ok hat

/-- Once something has been read, it does not matter whether the token is there. -/
theorem paced_accepts_behind {token token' : Reader Unit}
    (h : Paced start true token token' fun _ => true) :
    Paced start true (accepts token) (accepts token') fun _ => true := by
  apply paced_weaken (paced_accepts h)
  intro found _
  cases found with
  | true => rfl
  | false => rfl

theorem paced_accepting {token token' : Reader Unit} {read : Unit → Bool}
    {yes yes' no no' : Reader α} (h : Paced start moved token token' read)
    (hyes : Paced start (read ()) yes yes' after) (hno : Paced start moved no no' after) :
    Paced start moved (do if ← accepts token then yes else no)
      (do if ← accepts token' then yes' else no') after := by
  apply paced_bind (paced_accepts h)
  intro found
  cases found with
  | true => exact hyes
  | false => exact hno

theorem paced_looking {test : List Char → Bool} {yes yes' no no' : Reader α}
    (h : Respects T test)
    (hyes : Paced start moved yes yes' after) (hno : Paced start moved no no' after) :
    Paced start moved (do if ← look test then yes else no)
      (do if ← look test then yes' else no') after := by
  intro text other hat
  have hsame := h text other hat.related
  cases htest : test text with
  | true =>
    rw [htest] at hsame
    rw [bind_ok (look_true htest), bind_ok (look_true hsame.symm)]
    exact hyes text other hat
  | false =>
    rw [htest] at hsame
    rw [bind_ok (look_false htest), bind_ok (look_false hsame.symm)]
    exact hno text other hat

theorem paced_optional (h : Paced start moved reader reader' after) :
    Paced start moved (optional reader) (optional reader') fun found =>
      (found.map after).getD moved := by
  intro text other hat
  rcases (h text other hat).replies with
    ⟨value, rest, rest', hread, hread', hrest⟩ | ⟨rest, rest', hread, hread', -⟩
  · rw [optional_ok hread, optional_ok hread']
    exact .ok hrest
  · rw [optional_fail hread, optional_fail hread']
    exact .ok hat

/-! ## Repetition -/

section

variable {step step' : α → Reader (Option α)}

/-- As long as a value is extended, both texts become shorter; so neither loop runs out of rounds. -/
theorem chainUpTo_paced
    (hstep : ∀ value, InStep T bound (step value) (step' value) Option.isSome) :
    ∀ (rounds rounds' : Nat) (value : α) (text other : List Char), start.At moved text other →
      text.length < rounds → other.length < rounds' →
      Reply.Paced start (fun _ => moved) (chainUpTo step rounds value text)
        (chainUpTo step' rounds' value other) := by
  intro rounds
  induction rounds with
  | zero =>
    intro rounds' value text other _ hlength
    exact absurd hlength (Nat.not_lt_zero _)
  | succ rounds ih =>
    intro rounds' value text other hat hlength hlength'
    obtain ⟨rounds', rfl⟩ : ∃ fewer, rounds' = fewer + 1 := ⟨rounds' - 1, by omega⟩
    unfold chainUpTo
    rcases (hstep value hat.anew text other hat.anew.here).replies with
      ⟨next?, rest, rest', hread, hread', hrest⟩ | ⟨rest, rest', hread, hread', hrest⟩
    · rw [bind_ok hread, bind_ok hread']
      have hnext : start.At moved rest rest' :=
        (hat.next hrest.related hrest.left hrest.left').weaken fun h => by rw [h]; rfl
      cases next? with
      | none => exact .ok hnext
      | some next =>
        have hshort : rest.length < text.length := hrest.left.2 rfl
        have hshort' : rest'.length < other.length := hrest.left'.2 rfl
        exact ih rounds' next rest rest' hnext (by omega) (by omega)
    · rw [bind_fail hread, bind_fail hread']
      refine .fail ((hat.next hrest.related hrest.left hrest.left').weaken fun h => ?_)
      cases h

theorem paced_chain (value : α)
    (hstep : ∀ value, InStep T bound (step value) (step' value) Option.isSome) :
    Paced start moved (chain step value) (chain step' value) fun _ => moved := by
  intro text other hat
  exact chainUpTo_paced hstep _ _ value text other hat (Nat.lt_succ_self _) (Nat.lt_succ_self _)

end

section

variable {item item' : Reader (Option α)}

theorem manyUpTo_paced (hitem : InStep T bound item item' Option.isSome) :
    ∀ (rounds rounds' : Nat) (moved : Bool) (text other : List Char), start.At moved text other →
      text.length < rounds → other.length < rounds' →
      Reply.Paced start (fun values => moved || !values.isEmpty) (manyUpTo item rounds text)
        (manyUpTo item' rounds' other) := by
  intro rounds
  induction rounds with
  | zero =>
    intro rounds' moved text other _ hlength
    exact absurd hlength (Nat.not_lt_zero _)
  | succ rounds ih =>
    intro rounds' moved text other hat hlength hlength'
    obtain ⟨rounds', rfl⟩ : ∃ fewer, rounds' = fewer + 1 := ⟨rounds' - 1, by omega⟩
    unfold manyUpTo
    rcases (hitem hat.anew text other hat.anew.here).replies with
      ⟨value?, rest, rest', hread, hread', hrest⟩ | ⟨rest, rest', hread, hread', hrest⟩
    · rw [bind_ok hread, bind_ok hread']
      have hnext := hat.next hrest.related hrest.left hrest.left'
      cases value? with
      | none => exact .ok (hnext.weaken fun h => by simpa using h)
      | some value =>
        have hshort : rest.length < text.length := hrest.left.2 rfl
        have hshort' : rest'.length < other.length := hrest.left'.2 rfl
        have hothers := ih rounds' _ rest rest' hnext (by omega) (by omega)
        show Reply.Paced start _ ((manyUpTo item rounds >>= _) rest)
          ((manyUpTo item' rounds' >>= _) rest')
        rcases hothers.replies with
          ⟨values, last, last', hread, hread', hlast⟩ | ⟨last, last', hread, hread', hlast⟩
        · rw [bind_ok hread, bind_ok hread']
          exact .ok (hlast.weaken fun _ => by simp)
        · rw [bind_fail hread, bind_fail hread']
          exact .fail hlast
    · rw [bind_fail hread, bind_fail hread']
      refine .fail ((hat.next hrest.related hrest.left hrest.left').weaken fun h => ?_)
      cases h

theorem paced_many (hitem : InStep T bound item item' Option.isSome) :
    Paced start moved (many item) (many item') fun values => moved || !values.isEmpty := by
  intro text other hat
  exact manyUpTo_paced hitem _ _ moved text other hat (Nat.lt_succ_self _) (Nat.lt_succ_self _)

end

theorem InStep.pushing {item item' : Reader (Option α)} (h : InStep T bound item item' Option.isSome)
    (values : List α) :
    InStep T bound (pushing item values) (pushing item' values) Option.isSome := by
  intro start
  apply paced_bind (h start)
  intro value?
  cases value? with
  | none => exact paced_pure fun h => h
  | some value => exact paced_pure fun _ => rfl

section

variable {separator separator' : Reader Unit} {read : Unit → Bool}
  (hseparator : ∀ start : Start T bound, Paced start false separator separator' read)
  (hread : read () = true) (h : InStep T bound reader reader' fun _ => true)
include hseparator hread h

theorem InStep.behind :
    InStep T bound (behind separator reader) (behind separator' reader') Option.isSome := by
  intro start
  apply paced_accepting (hseparator start)
  · rw [hread]
    apply paced_bind h.call
    intro value
    exact paced_pure fun _ => rfl
  · exact paced_pure fun h => h

theorem InStep.separated :
    InStep T bound (separated separator reader) (separated separator' reader') fun _ => true := by
  intro start
  apply paced_bind (h start)
  intro first
  apply paced_bind (paced_many (InStep.behind hseparator hread h))
  intro others
  exact paced_pure fun _ => rfl

end

end

/-! ## Tokens -/

/-- A token is answered alike for related texts, and something is read of them with it. -/
structure Token {α : Type} (T : List Char → List Char → Prop)
    (read? : List Char → Option (α × List Char)) : Prop where
  alike : ∀ {text other}, T text other → Alike T (read? text) (read? other)
  left : ∀ {text value rest}, read? text = some (value, rest) → Left true text rest

/-- Reads a token, given by what it stands for and the text after it. -/
def reading {α : Type} (read? : List Char → Option (α × List Char)) : Reader α := fun text =>
  match read? text with
  | some (value, rest) => .ok value rest
  | none => .fail text

theorem token_eq_reading (drop? : List Char → Option (List Char)) :
    token drop? = reading (standing () drop?) := by
  funext text
  unfold token reading standing
  cases drop? text with
  | none => rfl
  | some rest => rfl

section

variable {α : Type} {T : List Char → List Char → Prop} {bound : Nat} {start : Start T bound}
  {moved : Bool} {read? : List Char → Option (α × List Char)}

theorem paced_reading (h : Token T read?) :
    Paced start moved (reading read?) (reading read?) fun _ => true := by
  intro text other hat
  have halike := h.alike hat.related
  unfold reading
  cases hread : read? text with
  | none =>
    cases hread' : read? other with
    | none => exact .fail (hat.weaken fun h => by cases h)
    | some read' =>
      rw [hread, hread'] at halike
      cases halike
  | some read =>
    cases hread' : read? other with
    | none =>
      rw [hread, hread'] at halike
      cases halike
    | some read' =>
      obtain ⟨value, rest⟩ := read
      obtain ⟨value', rest'⟩ := read'
      have hleft : Left true text rest := h.left hread
      have hleft' : Left true other rest' := h.left hread'
      rw [hread, hread'] at halike
      cases halike with
      | some hsame =>
        obtain ⟨rfl, hrelated⟩ := hsame
        exact .ok ((hat.next hrelated hleft hleft').weaken fun _ => by simp)

theorem token_of_local (hT : Kindred T) (h : Local read?) : Token T read? :=
  ⟨fun hrelated => h.alike hT.front hrelated, h.left⟩

/-- A token behind blanks. -/
theorem Token.behind (hT : Kindred T) (h : Token T read?) :
    Token T fun text => read? (trimStart text) := by
  constructor
  · intro text other hrelated
    exact h.alike (hT.blanks hrelated)
  · intro text value rest hread
    exact (left_trimStart text).trans (h.left hread)

end

end Reader

open Reader

section

variable {T : List Char → List Char → Prop} (hT : Kindred T) {bound : Nat} {start : Start T bound}
  {moved : Bool}
include hT

theorem blanks_paced : Paced start moved blanks blanks fun _ => moved := by
  intro text other hat
  have hnext := hat.next (hT.blanks hat.related) (left_trimStart text) (left_trimStart other)
  exact .ok (hnext.weaken fun h => by rw [h]; rfl)

theorem exactSign_paced {text : String} (h : IsSign text) :
    Paced start moved (exactSign text) (exactSign text) fun _ => true := by
  unfold exactSign
  rw [token_eq_reading]
  exact paced_reading (token_of_local hT (local_sign h ()))

theorem sign_paced {text : String} (h : IsSign text) :
    Paced start moved (sign text) (sign text) fun _ => true := by
  unfold sign
  rw [token_eq_reading]
  exact paced_reading ((token_of_local hT (local_sign h ())).behind hT)

theorem exactKeyword_paced {word : String} (h : IsKeyword word) :
    Paced start moved (exactKeyword word) (exactKeyword word) fun _ => true := by
  unfold exactKeyword
  rw [token_eq_reading]
  exact paced_reading (token_of_local hT (local_keyword h ()))

theorem keyword_paced {word : String} (h : IsKeyword word) :
    Paced start moved (keyword word) (keyword word) fun _ => true := by
  unfold keyword
  rw [token_eq_reading]
  exact paced_reading ((token_of_local hT (local_keyword h ())).behind hT)

theorem wordThat_paced (test : String → Bool) :
    Paced start moved (wordThat test) (wordThat test) fun _ => true := by
  have hwordThat : wordThat test = reading fun text =>
      (takeWord? (trimStart text)).filter fun read => test read.1 := by
    funext text
    unfold wordThat reading
    simp only
    cases takeWord? (trimStart text) with
    | none => rfl
    | some read =>
      simp only [Option.filter_some]
      split
      · rfl
      · rfl
  have hword := (token_of_local hT local_word).behind hT
  rw [hwordThat]
  apply paced_reading
  constructor
  · intro text other hrelated
    have halike := hword.alike hrelated
    revert halike
    generalize takeWord? (trimStart text) = read
    generalize takeWord? (trimStart other) = read'
    intro halike
    cases halike with
    | none => exact .none
    | @some first second hsame =>
      rw [Option.filter_some, Option.filter_some, ← hsame.1]
      split
      · exact .some hsame
      · exact .none
  · intro text value rest hread
    exact hword.left (Option.filter_eq_some_iff.mp hread).1

theorem literalToken_paced : Paced start moved literalToken literalToken fun _ => true := by
  have hliteralToken : literalToken = reading literal? := by
    funext text
    unfold literalToken reading
    cases literal? text with
    | none => rfl
    | some read => rfl
  rw [hliteralToken]
  exact paced_reading ⟨hT.literal, left_literal⟩

theorem comparisonOperator_paced :
    Paced start moved comparisonOperator comparisonOperator fun _ => true := by
  have hcomparison : comparisonOperator = blanks >>= fun _ =>
      reading fun text => comparisonSigns.findSome? fun entry =>
        standing entry.2 (dropSign? entry.1.toList) text := by
    unfold comparisonOperator reading
    refine congrArg (blanks >>= ·) (funext fun _ => funext fun text => ?_)
    simp only [standing]
    generalize (comparisonSigns.findSome? fun entry =>
      (dropSign? entry.1.toList text).map fun rest => (entry.2, rest)) = found?
    cases found? with
    | none => rfl
    | some read => rfl
  rw [hcomparison]
  apply paced_bind (blanks_paced hT)
  intro _
  exact paced_reading (token_of_local hT local_comparison)

theorem position_paced : Paced start moved position position fun _ => true := by
  intro text other hat
  obtain ⟨front, rest, rest', htext, hother, hrest, hrest', hback⟩ := hT.front text other hat.related
  obtain ⟨htake, hdrop⟩ := hrest.scan isDigit_of_breaks front
  obtain ⟨htake', hdrop'⟩ := hrest'.scan isDigit_of_breaks front
  rw [← htext] at htake hdrop
  rw [← hother] at htake' hdrop'
  have hsplit : front = front.takeWhile Char.isDigit ++ front.dropWhile Char.isDigit :=
    List.takeWhile_append_dropWhile.symm
  unfold position
  simp only [htake, htake', hdrop, hdrop']
  by_cases hnone : (front.takeWhile Char.isDigit).isEmpty = true
  · rw [if_pos hnone, if_pos hnone]
    exact .fail (hat.weaken fun h => by cases h)
  · rw [if_neg hnone, if_neg hnone]
    have hdigits : front.takeWhile Char.isDigit ≠ [] := by simpa using hnone
    have hbehind : ∀ whole last, whole = front ++ last →
        Left true whole (front.dropWhile Char.isDigit ++ last) := by
      intro whole last hwhole
      have hleft := left_append hdigits (front.dropWhile Char.isDigit ++ last)
      rw [← List.append_assoc, ← hsplit, ← hwhole] at hleft
      exact hleft
    have hnext := hat.next (hback _ (List.dropWhile_suffix _)) (hbehind text rest htext)
      (hbehind other rest' hother)
    cases Number.Whole.readUnsigned 32 (front.takeWhile Char.isDigit) with
    | ok value => exact .ok (hnext.weaken fun _ => by simp)
    | error _ => exact .fail (hnext.weaken fun h => by cases h)

/-! ## What a text begins with -/

theorem beginsWithSign_respects {sign : String} (h : IsSign sign) :
    Respects T (beginsWithSign sign) := by
  intro text other hrelated
  have hsome := ((local_sign h ()).alike hT.front (hT.blanks hrelated)).isSome_eq
  unfold standing at hsome
  rw [Option.isSome_map, Option.isSome_map] at hsome
  exact hsome

theorem beginsWithWord_respects {word : String} (h : IsKeyword word) :
    Respects T (beginsWithWord word) := by
  intro text other hrelated
  have hsome := ((local_keyword h ()).alike hT.front (hT.blanks hrelated)).isSome_eq
  unfold standing at hsome
  rw [Option.isSome_map, Option.isSome_map] at hsome
  exact hsome

theorem beginsQuery_respects : Respects T beginsQuery := by
  intro text other hrelated
  have hselect : beginsWithWord "select" text = beginsWithWord "select" other :=
    beginsWithWord_respects hT (by decide) text other hrelated
  have hfrom : beginsWithWord "from" text = beginsWithWord "from" other :=
    beginsWithWord_respects hT (by decide) text other hrelated
  unfold beginsQuery
  rw [hselect, hfrom]

theorem continuesExpression_respects : Respects T continuesExpression := by
  intro text other hrelated
  have hsigns : ∀ sign ∈ continuingSigns, IsSign sign := by decide
  have hwords : ∀ word ∈ continuingWords, IsKeyword word := by decide
  have hsign : (continuingSigns.any fun sign => beginsWithSign sign text)
      = continuingSigns.any fun sign => beginsWithSign sign other := by
    rw [Bool.eq_iff_iff, List.any_eq_true, List.any_eq_true]
    refine exists_congr fun sign => and_congr_right fun hsign => ?_
    rw [beginsWithSign_respects hT (hsigns sign hsign) text other hrelated]
  have hword : (continuingWords.any fun word => beginsWithWord word text)
      = continuingWords.any fun word => beginsWithWord word other := by
    rw [Bool.eq_iff_iff, List.any_eq_true, List.any_eq_true]
    refine exists_congr fun word => and_congr_right fun hword => ?_
    rw [beginsWithWord_respects hT (hwords word hword) text other hrelated]
  unfold continuesExpression
  rw [hsign, hword]

end

end EntityQuery.Grammar

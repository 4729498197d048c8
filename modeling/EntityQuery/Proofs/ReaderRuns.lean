import EntityQuery.Grammar.Reader

/-!
# Runs of readers

A reader that is composed of others is run part by part: each lemma takes what a part answers and
says how the whole goes on.

* `bind_ok`, `bind_fail`, `accepts_ok`, `accepts_fail`, `optional_ok`, `optional_fail`.
* `Collects`: an item is offered again and again, and each time some of the text is read. This is
  what `many` and `separated` read.
* `Climbs`: an operand is extended again and again. This is what `chain` reads, so operands of one
  level are grouped from the left. `Climbs.extended` adds an operand at the end.
-/

namespace EntityQuery.Grammar.Reader

variable {α β : Type} {reader : Reader α} {text rest : List Char} {value : α}

/-! ## One part after another -/

theorem bind_ok {next : α → Reader β} (h : reader text = .ok value rest) :
    (reader >>= next) text = next value rest := by
  rw [bind_apply, h]

theorem bind_fail {next : α → Reader β} (h : reader text = .fail rest) :
    (reader >>= next) text = .fail rest := by
  rw [bind_apply, h]

theorem of_bind_ok {next : α → Reader β} {result : β}
    (h : (reader >>= next) text = .ok result rest) :
    ∃ value mid, reader text = .ok value mid ∧ next value mid = .ok result rest := by
  cases hread : reader text with
  | ok value mid => exact ⟨value, mid, rfl, (bind_ok hread).symm.trans h⟩
  | fail mid => cases (bind_fail hread).symm.trans h

theorem accepts_ok {token : Reader Unit} (h : token text = .ok () rest) :
    accepts token text = .ok true rest := by
  unfold accepts
  rw [h]

theorem accepts_fail {token : Reader Unit} (h : token text = .fail rest) :
    accepts token text = .ok false text := by
  unfold accepts
  rw [h]

theorem accepts_false {token : Reader Unit} (h : accepts token text = .ok false rest) :
    rest = text := by
  unfold accepts at h
  cases hread : token text with
  | ok value mid => simp [hread] at h
  | fail mid =>
    rw [hread] at h
    cases h
    rfl

theorem optional_ok (h : reader text = .ok value rest) :
    optional reader text = .ok (some value) rest := by
  unfold optional
  rw [h]

theorem optional_fail (h : reader text = .fail rest) : optional reader text = .ok none text := by
  unfold optional
  rw [h]

theorem look_true {test : List Char → Bool} (h : test text = true) :
    look test text = .ok true text := by
  unfold look
  rw [h]

theorem look_false {test : List Char → Bool} (h : test text = false) :
    look test text = .ok false text := by
  unfold look
  rw [h]

/-! ## Repetition -/

section

variable {item : Reader (Option α)}

/-- The item offers the values, one after another, and then none. -/
inductive Collects (item : Reader (Option α)) : List Char → List α → List Char → Prop where
  | done {text rest : List Char} (h : item text = .ok none rest) : Collects item text [] rest
  | more {text mid rest : List Char} {value : α} {values : List α}
      (h : item text = .ok (some value) mid) (hshort : mid.length < text.length)
      (htail : Collects item mid values rest) : Collects item text (value :: values) rest

/-- A number of rounds that the length of the text does not reach is not used up. -/
theorem Collects.manyUpTo {values : List α} (h : Collects item text values rest) {rounds : Nat}
    (hrounds : text.length < rounds) : manyUpTo item rounds text = .ok values rest := by
  induction h generalizing rounds with
  | done h =>
    cases rounds with
    | zero => omega
    | succ rounds => rw [Reader.manyUpTo, bind_ok h]; rfl
  | more h hshort _ ih =>
    cases rounds with
    | zero => omega
    | succ rounds =>
      have htail := @ih rounds (by omega)
      rw [Reader.manyUpTo, bind_ok h]
      show (Reader.manyUpTo item rounds >>= _) _ = _
      rw [bind_ok htail]
      rfl

theorem Collects.many {values : List α} (h : Collects item text values rest) :
    many item text = .ok values rest :=
  h.manyUpTo (Nat.lt_succ_self _)

end

/-! ## Chains -/

section

variable {operand : Reader α} {extend : α → Reader (Option α)} {last next : α} {mid : List Char}

/-- An operand is read and extended again and again up to the last value. The number of the
extensions is bounded by the number of characters that they read. -/
def Climbs (operand : Reader α) (extend : α → Reader (Option α)) (text : List Char) (last : α)
    (rest : List Char) : Prop :=
  ∃ first start extensions, operand text = .ok first start
    ∧ extensions + rest.length ≤ start.length
    ∧ ∀ rounds,
      chainUpTo extend (rounds + extensions) first start = chainUpTo extend rounds last rest

/-- The operand alone. -/
theorem climbs_operand (h : operand text = .ok value rest) :
    Climbs operand extend text value rest := by
  refine ⟨value, rest, 0, h, by omega, ?_⟩
  intro rounds
  rfl

/-- One more extension at the end. -/
theorem Climbs.extended (h : Climbs operand extend text last mid)
    (hnext : extend last mid = .ok (some next) rest) (hshort : rest.length < mid.length) :
    Climbs operand extend text next rest := by
  obtain ⟨first, start, extensions, hfirst, hlength, hchain⟩ := h
  refine ⟨first, start, extensions + 1, hfirst, by omega, ?_⟩
  intro rounds
  have hround : chainUpTo extend (rounds + 1) last mid = chainUpTo extend rounds next rest := by
    rw [chainUpTo, bind_ok hnext]
  rw [Nat.add_comm extensions 1, ← Nat.add_assoc, hchain, hround]

/-- The chain is read up to where no extension is offered. -/
theorem Climbs.read (h : Climbs operand extend text last mid)
    (hnone : extend last mid = .ok none rest) :
    (operand >>= fun first => chain extend first) text = .ok last rest := by
  obtain ⟨first, start, extensions, hfirst, hlength, hchain⟩ := h
  have hrounds : start.length + 1 = (start.length - extensions + 1) + extensions := by omega
  rw [bind_ok hfirst, chain, hrounds, hchain, chainUpTo, bind_ok hnone]
  rfl

end

end EntityQuery.Grammar.Reader

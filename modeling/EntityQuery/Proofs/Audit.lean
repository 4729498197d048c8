import EntityQuery.Proofs.MovedQueries

/-!
# The strict language beside the lenient one

A step is run from one state under a schema twice, once with the lenient and once with the strict
language in force. Where the lenient run ends, a condition decides whether the strict run does
exactly the same or stops at a breach; where the lenient run fails, the strict run fails in the same
way or stops at a breach before. The condition of two steps after each other is that of both.

* `Step.Audit`: the comparison of the two runs.
* `Step.audit_bind`, `Step.audit_under`, `Step.audit_onLevel`: steps put together.
* `Step.audit_free`: steps that do not ask which language is in force.
* `Step.audit_comply`: where breaches come from.
-/

namespace EntityQuery.Interpretation.Step

/-- The run stopped at a breach. -/
def Breaks {α : Type} (outcome : Except Fault α × Context) : Prop :=
  ∃ breach, outcome.1 = .error (.strict breach)

/-- What the lenient run of a step says of the strict one. `Q` knows the condition under which the
strict run does the same. -/
def Audit {α : Type} (schema : Schema) (before : Context) (step : Step α)
    (Q : Prop → α → Context → Prop) : Prop :=
  match step.run' (schema.withStrict false) before with
  | (.ok value, after) =>
    ∃ fine, Q fine value after
      ∧ (fine → step.run' (schema.withStrict true) before = (.ok value, after))
      ∧ (¬fine → Breaks (step.run' (schema.withStrict true) before))
  | (.error fault, after) =>
    step.run' (schema.withStrict true) before = (.error fault, after)
      ∨ Breaks (step.run' (schema.withStrict true) before)

variable {α β : Type} {schema : Schema} {before : Context} {P Q : Prop → α → Context → Prop}
  {R : Prop → β → Context → Prop}

/-! ## Steps put together -/

theorem audit_pure {value : α} (h : Q True value before) :
    Audit schema before (pure value) Q :=
  ⟨True, h, fun _ => rfl, fun hfine => (hfine trivial).elim⟩

theorem audit_throw (fault : Fault) : Audit schema before (throw fault : Step α) Q :=
  .inl rfl

theorem audit_mono {step : Step α} (h : Audit schema before step P)
    (himp : ∀ fine value after, P fine value after → Q fine value after) :
    Audit schema before step Q := by
  unfold Audit at *
  split
  · rename_i value after hrun
    rw [hrun] at h
    obtain ⟨fine, hP, hsame, hbreaks⟩ := h
    exact ⟨fine, himp fine value after hP, hsame, hbreaks⟩
  · rename_i fault after hrun
    rw [hrun] at h
    exact h

/-- What is known of the lenient run alone may be used. -/
theorem audit_with {step : Step α} {E : α → Context → Prop} (h : Audit schema before step Q)
    (hends : Ends (schema.withStrict false) before step E) :
    Audit schema before step fun fine value after => Q fine value after ∧ E value after := by
  unfold Audit at *
  split
  · rename_i value after hrun
    rw [hrun] at h
    obtain ⟨fine, hQ, hsame, hbreaks⟩ := h
    exact ⟨fine, ⟨hQ, hends value after hrun⟩, hsame, hbreaks⟩
  · rename_i fault after hrun
    rw [hrun] at h
    exact h

/-- A run that stops at a breach stops there for good. -/
theorem breaks_bind {first : Step α} (second : α → Step β)
    (h : Breaks (first.run' schema before)) : Breaks ((first >>= second).run' schema before) := by
  obtain ⟨breach, hbreach⟩ := h
  rw [run_bind]
  generalize first.run' schema before = ran at hbreach
  obtain ⟨outcome, after⟩ := ran
  cases hbreach
  exact ⟨breach, rfl⟩

theorem audit_bind {first : Step α} {second : α → Step β} (hfirst : Audit schema before first P)
    (hsecond : ∀ fine value between,
      first.run' (schema.withStrict false) before = (.ok value, between) → P fine value between →
      Audit schema between (second value) fun fine' => R (fine ∧ fine')) :
    Audit schema before (first >>= second) R := by
  unfold Audit at hfirst ⊢
  cases hrun : first.run' (schema.withStrict false) before with
  | mk outcome between =>
    rw [hrun] at hfirst
    have hlenient : (first >>= second).run' (schema.withStrict false) before = _ :=
      run_bind first second
    rw [hrun] at hlenient
    cases outcome with
    | error fault =>
      rw [hlenient]
      rcases hfirst with hsame | hbreaks
      · refine .inl ?_
        rw [run_bind, hsame]
      · exact .inr (breaks_bind second hbreaks)
    | ok value =>
      obtain ⟨fine, hP, hsame, hbreaks⟩ := hfirst
      have hnext := hsecond fine value between hrun hP
      unfold Audit at hnext
      dsimp only at hlenient
      rw [hlenient]
      by_cases hfine : fine
      · have hstrict : (first >>= second).run' (schema.withStrict true) before
            = (second value).run' (schema.withStrict true) between := by
          rw [run_bind, hsame hfine]
        rw [hstrict]
        -- The first step does the same, so that the second one decides.
        split
        · rename_i result after hend
          rw [hend] at hnext
          obtain ⟨fine', hR, hsame', hbreaks'⟩ := hnext
          exact ⟨fine ∧ fine', hR, fun h => hsame' h.2,
            fun h => hbreaks' fun hfine' => h ⟨hfine, hfine'⟩⟩
        · rename_i fault after hend
          rw [hend] at hnext
          exact hnext
      · have hstrict := breaks_bind second (hbreaks hfine)
        split
        · rename_i result after hend
          rw [hend] at hnext
          obtain ⟨fine', hR, -, -⟩ := hnext
          exact ⟨fine ∧ fine', hR, fun h => (hfine h.1).elim, fun _ => hstrict⟩
        · exact .inr hstrict

theorem audit_throw_bind (fault : Fault) (second : α → Step β) :
    Audit schema before ((throw fault : Step α) >>= second) R :=
  .inl rfl

theorem audit_get_bind {second : Context → Step α} (h : Audit schema before (second before) Q) :
    Audit schema before (get >>= second) Q :=
  h

/-! ## Elementary steps -/

/-- The same is done whichever language is in force. -/
theorem audit_same {step : Step α}
    (hsame : step.run' (schema.withStrict true) before
      = step.run' (schema.withStrict false) before)
    (h : Ends (schema.withStrict false) before step (Q True)) : Audit schema before step Q := by
  unfold Audit
  split
  · rename_i value after hrun
    exact ⟨True, h value after hrun, fun _ => hsame.trans hrun, fun hfine => (hfine trivial).elim⟩
  · rename_i fault after hrun
    exact .inl (hsame.trans hrun)

/-- A step that does not ask which language is in force. -/
theorem audit_free {S : Context → Context → Prop} {step : Step α}
    (hfree : Moves schema True S before step)
    (h : Ends (schema.withStrict false) before step (Q True)) : Audit schema before step Q :=
  audit_same ((hfree.same trivial true).trans (hfree.same trivial false).symm) h

/-- The strict language rejects what is violated. -/
theorem audit_comply {violated : Bool} {breach : Breach} {Q : Prop → Unit → Context → Prop}
    (h : Q (violated = false) () before) : Audit schema before (comply violated breach) Q := by
  cases violated with
  | false => exact ⟨_, h, fun _ => rfl, fun hfine => (hfine rfl).elim⟩
  | true => exact ⟨_, h, fun hfine => (by cases hfine), fun _ => ⟨breach, rfl⟩⟩

theorem audit_modify {change : Context → Context} {Q : Prop → Unit → Context → Prop}
    (h : Q True () (change before)) : Audit schema before (modify change) Q :=
  audit_same rfl (ends_modify h)

theorem audit_ofExcept {check : Except Fault α} (h : ∀ value, check = .ok value →
    Q True value before) : Audit schema before (ofExcept check) Q := by
  cases check with
  | error fault => exact audit_throw fault
  | ok value => exact audit_pure (h value rfl)

theorem audit_under {resolver : Resolver} {step : Step α}
    (h : Audit schema (before.pushResolver resolver) step fun fine value after =>
      Q fine value after.popResolver) : Audit schema before (under resolver step) Q := by
  unfold Audit at h ⊢
  rw [run_under, run_under]
  generalize step.run' (schema.withStrict true) (before.pushResolver resolver) = strict at h ⊢
  cases hrun : step.run' (schema.withStrict false) (before.pushResolver resolver) with
  | mk outcome after =>
    rw [hrun] at h
    cases outcome with
    | ok value =>
      obtain ⟨fine, hQ, hsame, hbreaks⟩ := h
      exact ⟨fine, hQ, fun hfine => by rw [hsame hfine], fun hfine => hbreaks hfine⟩
    | error fault =>
      rcases h with hsame | hbreaks
      · exact .inl (by rw [hsame])
      · exact .inr hbreaks

theorem audit_onLevel {step : Step α} {Q : Prop → α × List Resolved.Space → Context → Prop}
    (h : Audit schema before.openLevel step fun fine value after => ∀ spaces,
      Levels.close (after.levels.headD []) = .ok spaces → Q fine (value, spaces) after.leaveLevel) :
    Audit schema before (onLevel step) Q := by
  unfold Audit at h ⊢
  rw [run_onLevel, run_onLevel]
  generalize step.run' (schema.withStrict true) before.openLevel = strict at h ⊢
  have hbreak : Breaks strict → Breaks (strict.1.bind fun value =>
      (Levels.close (strict.2.levels.headD [])).map fun spaces => (value, spaces),
      strict.2.leaveLevel) := by
    rintro ⟨breach, hbreach⟩
    exact ⟨breach, by rw [hbreach]; rfl⟩
  cases hrun : step.run' (schema.withStrict false) before.openLevel with
  | mk outcome after =>
    rw [hrun] at h
    cases outcome with
    | error fault =>
      rcases h with hsame | hbreaks
      · exact .inl (by rw [hsame]; rfl)
      · exact .inr (hbreak hbreaks)
    | ok value =>
      obtain ⟨fine, hQ, hsame, hbreaks⟩ := h
      dsimp only [Except.bind]
      cases hclose : Levels.close (after.levels.headD []) with
      | ok spaces =>
        refine ⟨fine, hQ spaces hclose, fun hfine => ?_, fun hfine => hbreak (hbreaks hfine)⟩
        rw [hsame hfine]
        dsimp only [Except.bind]
        rw [hclose]
        rfl
      | error fault =>
        by_cases hfine : fine
        · refine .inl ?_
          rw [hsame hfine]
          dsimp only [Except.bind]
          rw [hclose]
          rfl
        · exact .inr (hbreak (hbreaks hfine))

end EntityQuery.Interpretation.Step

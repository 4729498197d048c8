import EntityQuery.Proofs.Motion
import EntityQuery.Proofs.RenamedStates

/-!
# Corresponding runs

A step, and the step for other variables, run from a state and from the state with the other
variables. They correspond if both end with related values, in such states again, or if both fail
with the same code. There is one rule for each way of putting steps together and one for each
elementary step.

* `Step.Corresponds`: the comparison; `Step.CorrespondsAt`: the comparison in one state.
* `Step.corresponds_bind`, `Step.corresponds_under`, `Step.corresponds_onLevel`: steps put together.
* `Step.corresponds_registerElement`, `Step.corresponds_updateSpace`, …: elementary steps.
-/

namespace EntityQuery.Interpretation

variable {schema : Schema}

/-- Two runs end alike: with related values in states that differ in the variables, or with the same
code. -/
inductive Outcomes (ρ : Renaming schema) {α β : Type} (R : α → β → Prop) :
    Except Fault α × Context → Except Fault β × Context → Prop where
  | ok {value : α} {value' : β} {after : Context} (advisories : List Report.Advisory)
      (hvalue : R value value') (hfits : ρ.Fits after) :
      Outcomes ρ R (.ok value, after) (.ok value', after.renamed ρ.rename advisories)
  | error {fault fault' : Fault} {after after' : Context}
      (hcode : fault'.report.code = fault.report.code) :
      Outcomes ρ R (.error fault, after) (.error fault', after')

namespace Step

/-- From a state, the first step and, with the other variables, the second one end alike. -/
def CorrespondsAt (ρ : Renaming schema) {α β : Type} (R : α → β → Prop) (before : Context)
    (step : Step α) (step' : Step β) : Prop :=
  ∀ advisories, Outcomes ρ R (step.run' schema before)
    (step'.run' schema (before.renamed ρ.rename advisories))

/-- The steps end alike from every state that fits. -/
def Corresponds (ρ : Renaming schema) {α β : Type} (R : α → β → Prop) (step : Step α)
    (step' : Step β) : Prop :=
  ∀ before, ρ.Fits before → CorrespondsAt ρ R before step step'

variable {ρ : Renaming schema} {α β γ δ : Type} {R : α → β → Prop} {S : γ → δ → Prop}

/-! ## Steps put together -/

theorem corresponds_pure {value : α} {value' : β} (h : R value value') :
    Corresponds ρ R (pure value) (pure value') :=
  fun _ hfits advisories => .ok advisories h hfits

theorem corresponds_throw {fault fault' : Fault} (h : fault'.report.code = fault.report.code) :
    Corresponds ρ R (throw fault : Step α) (throw fault' : Step β) :=
  fun _ _ _ => .error h

/-- The second step may rely on how the first one ended. -/
theorem correspondsAt_bind {before : Context} {first : Step α} {first' : Step β}
    {second : α → Step γ} {second' : β → Step δ} (hfirst : CorrespondsAt ρ R before first first')
    (hsecond : ∀ value value' between, first.run' schema before = (.ok value, between) →
      ρ.Fits between → R value value' →
      CorrespondsAt ρ S between (second value) (second' value')) :
    CorrespondsAt ρ S before (first >>= second) (first' >>= second') := by
  intro advisories
  have hone := hfirst advisories
  rw [run_bind, run_bind]
  generalize hran : first.run' schema before = ran at hone
  generalize first'.run' schema (before.renamed ρ.rename advisories) = ran' at hone
  cases hone with
  | error hcode => exact .error hcode
  | ok advisories hvalue hafter => exact hsecond _ _ _ hran hafter hvalue advisories

theorem corresponds_bind {first : Step α} {first' : Step β} {second : α → Step γ}
    {second' : β → Step δ} (hfirst : Corresponds ρ R first first')
    (hsecond : ∀ value value', R value value' → Corresponds ρ S (second value) (second' value')) :
    Corresponds ρ S (first >>= second) (first' >>= second') :=
  fun before hfits => correspondsAt_bind (hfirst before hfits)
    fun value value' between _ hbetween hvalue => hsecond value value' hvalue between hbetween

/-- Nothing is asked of what follows two steps that fail. -/
theorem corresponds_fails {first : Step α} {first' : Step β} {second : α → Step γ}
    {second' : β → Step δ} (hfirst : Corresponds ρ (fun _ _ => False) first first') :
    Corresponds ρ S (first >>= second) (first' >>= second') :=
  corresponds_bind hfirst fun _ _ hfalse => hfalse.elim

theorem corresponds_throw_bind {fault fault' : Fault} {second : α → Step γ}
    {second' : β → Step δ} (h : fault'.report.code = fault.report.code) :
    Corresponds ρ S ((throw fault : Step α) >>= second) ((throw fault' : Step β) >>= second') :=
  corresponds_fails (corresponds_throw h)

theorem corresponds_mono {R' : α → β → Prop} {step : Step α} {step' : Step β}
    (h : Corresponds ρ R step step') (himp : ∀ value value', R value value' → R' value value') :
    Corresponds ρ R' step step' := by
  intro before hfits advisories
  have hends := h before hfits advisories
  generalize step.run' schema before = ran at hends ⊢
  generalize step'.run' schema (before.renamed ρ.rename advisories) = ran' at hends ⊢
  cases hends with
  | error hcode => exact .error hcode
  | ok advisories hvalue hafter => exact .ok advisories (himp _ _ hvalue) hafter

/-- What is read off a state is read off a state that fits. -/
theorem corresponds_get_bind {second second' : Context → Step α}
    {R : α → α → Prop}
    (h : ∀ context advisories, ρ.Fits context →
      Corresponds ρ R (second context) (second' (context.renamed ρ.rename advisories))) :
    Corresponds ρ R (get >>= second) (get >>= second') :=
  fun before hfits advisories => h before advisories hfits before hfits advisories

theorem corresponds_read_bind {second : Schema → Step α} {second' : Schema → Step β}
    (h : Corresponds ρ R (second schema) (second' schema)) :
    Corresponds ρ R (read >>= second) (read >>= second') :=
  h

theorem corresponds_ofExcept {check : Except Fault α} {check' : Except Fault β}
    (h : Agrees R check check') : Corresponds ρ R (ofExcept check) (ofExcept check') := by
  cases h with
  | ok h => exact corresponds_pure h
  | error h => exact corresponds_throw h

/-- A check on an unrelated value is the same check. -/
theorem corresponds_check (check : Except Fault α) :
    Corresponds ρ Eq (ofExcept check) (ofExcept check) := by
  cases check with
  | ok value => exact corresponds_pure rfl
  | error fault => exact corresponds_throw rfl

theorem corresponds_comply (violated : Bool) {breach breach' : Breach}
    (h : breach'.violation = breach.violation) :
    Corresponds ρ (fun _ _ => True) (comply violated breach) (comply violated breach') := by
  refine corresponds_read_bind ?_
  split
  · exact corresponds_throw (congrArg Report.Violation.code h)
  · exact corresponds_pure trivial

/-! ## Elementary steps -/

theorem corresponds_modify {change change' : Context → Context}
    (h : ∀ context advisories, ρ.Fits context → ρ.Fits (change context)
      ∧ ∃ more, change' (context.renamed ρ.rename advisories)
        = (change context).renamed ρ.rename more) :
    Corresponds ρ (fun _ _ => True) (modify change) (modify change') := by
  intro before hfits advisories
  obtain ⟨hafter, more, hmore⟩ := h before advisories hfits
  have hrun : (modify change' : Step Unit).run' schema (before.renamed ρ.rename advisories)
      = (.ok (), (change before).renamed ρ.rename more) := congrArg (Prod.mk _) hmore
  rw [hrun]
  exact .ok more trivial hafter

theorem corresponds_narrow (uid : Nat) (entity : EntityReference) :
    Corresponds ρ (fun _ _ => True) (modify fun context => context.narrow uid entity)
      (modify fun context => context.narrow uid entity) :=
  corresponds_modify fun _ advisories hfits =>
    ⟨⟨hfits.trail, hfits.registered⟩, advisories, rfl⟩

theorem run_change_ok {change : Context → Except Fault Context} {before after : Context}
    (h : change before = .ok after) : (Step.change change).run' schema before = (.ok (), after) := by
  unfold Step.change
  rw [run_get_bind]
  simp only [h]
  rfl

theorem run_change_error {change : Context → Except Fault Context} {before : Context}
    {fault : Fault} (h : change before = .error fault) :
    (Step.change change).run' schema before = (.error fault, before) := by
  unfold Step.change
  rw [run_get_bind]
  simp only [h]
  rfl

theorem corresponds_change {change change' : Context → Except Fault Context}
    (h : ∀ context advisories, ρ.Fits context →
      Agrees (fun after after' => ρ.Fits after ∧ ∃ more, after' = after.renamed ρ.rename more)
        (change context) (change' (context.renamed ρ.rename advisories))) :
    Corresponds ρ (fun _ _ => True) (Step.change change) (Step.change change') := by
  intro before hfits advisories
  have hagrees := h before advisories hfits
  generalize hchange : change before = changed at hagrees
  generalize hchange' : change' (before.renamed ρ.rename advisories) = changed' at hagrees
  cases hagrees with
  | error hcode =>
    rw [run_change_error hchange, run_change_error hchange']
    exact .error hcode
  | ok hafter =>
    obtain ⟨hafter, more, rfl⟩ := hafter
    rw [run_change_ok hchange, run_change_ok hchange']
    exact .ok more trivial hafter

theorem corresponds_drawUid : Corresponds ρ Eq drawUid drawUid :=
  fun _ hfits advisories => .ok advisories rfl ⟨hfits.trail, hfits.registered⟩

/-- A made-up variable keeps its name. -/
theorem corresponds_drawAlias :
    Corresponds ρ (fun aliasName aliasName' => aliasName' = ρ.rename aliasName
      ∧ ρ.Bound aliasName) drawAlias drawAlias := by
  intro before hfits advisories
  refine .ok advisories ⟨?_, Renaming.bound_generated _⟩ ⟨hfits.trail, hfits.registered⟩
  exact (ρ.generated before.nextAlias).2.symm

theorem run_openSpace_ok {before : Context} {id : SpaceId} {levels : Levels}
    (h : before.levels.openSpace = .ok (id, levels)) :
    openSpace.run' schema before = (.ok id, { before with levels := levels }) := by
  unfold openSpace
  rw [run_get_bind]
  simp only [h]
  rfl

theorem run_openSpace_error {before : Context} {fault : Fault}
    (h : before.levels.openSpace = .error fault) :
    openSpace.run' schema before = (.error fault, before) := by
  unfold openSpace
  rw [run_get_bind]
  simp only [h]
  rfl

theorem corresponds_openSpace : Corresponds ρ Eq openSpace openSpace := by
  intro before hfits advisories
  have hagrees : Agrees _ before.levels.openSpace
      (Levels.openSpace (before.levels.renamed ρ.rename)) := before.levels.openSpace_renamed
  generalize hopened : before.levels.openSpace = opened at hagrees
  generalize hopened' : Levels.openSpace (before.levels.renamed ρ.rename) = opened' at hagrees
  have hlevels : (before.renamed ρ.rename advisories).levels.openSpace = opened' := hopened'
  cases hagrees with
  | error hcode =>
    rw [run_openSpace_error hopened, run_openSpace_error hlevels]
    exact .error hcode
  | ok h =>
    rw [h] at hlevels
    rw [run_openSpace_ok hopened, run_openSpace_ok hlevels]
    exact .ok advisories rfl ⟨hfits.trail, hfits.registered⟩

theorem corresponds_updateSpace (id : SpaceId) {change change' : OpenSpace → Except Fault OpenSpace}
    (h : ∀ space, Agrees (fun filled filled' => filled' = filled.renamed ρ.rename) (change space)
      (change' (space.renamed ρ.rename))) :
    Corresponds ρ (fun _ _ => True) (updateSpace id change) (updateSpace id change') := by
  refine corresponds_change fun context advisories hfits => ?_
  refine (Levels.update_renamed h context.levels id).map fun levels levels' hlevels => ?_
  rw [hlevels]
  exact ⟨⟨hfits.trail, hfits.registered⟩, advisories, rfl⟩

theorem corresponds_registerElement {element : FromElement} (helement : ρ.Knows element) :
    Corresponds ρ (fun _ _ => True) (registerElement element)
      (registerElement (element.renamed ρ.rename)) := by
  refine corresponds_bind (corresponds_modify fun context advisories hfits =>
    ⟨hfits.register helement, advisories, rfl⟩) fun _ _ _ => ?_
  refine corresponds_change fun context advisories hfits => ?_
  refine (Trail.bind_renamed hfits.trail helement).map fun trail trail' htrail => ?_
  rw [htrail.1]
  exact ⟨⟨htrail.2, hfits.registered⟩, advisories, rfl⟩

theorem corresponds_bindSelection (position : Nat) {selection : Resolved.Selection}
    (hname : ∀ name ∈ selection.alias?, ρ.admits name) :
    Corresponds ρ (fun _ _ => True) (bindSelection position selection)
      (bindSelection position (selection.renamed ρ.rename)) := by
  refine corresponds_change fun context advisories hfits => ?_
  refine (Trail.bindSelection_renamed hfits.trail position hname).map
    fun trail trail' htrail => ?_
  rw [htrail.1]
  exact ⟨⟨htrail.2, hfits.registered⟩, advisories, rfl⟩

/-! ## Steps that put the state back -/

theorem correspondsAt_under {before : Context} (resolver : Resolver) {step : Step α}
    {step' : Step β} (h : CorrespondsAt ρ R (before.pushResolver resolver) step step') :
    CorrespondsAt ρ R before (under resolver step) (under resolver step') := by
  intro advisories
  have hends := h advisories
  rw [run_under, run_under]
  change Outcomes ρ R _ ((step'.run' schema
      ((before.pushResolver resolver).renamed ρ.rename advisories)).1,
    (step'.run' schema ((before.pushResolver resolver).renamed ρ.rename advisories)).2.popResolver)
  generalize step.run' schema (before.pushResolver resolver) = ran at hends
  generalize step'.run' schema ((before.pushResolver resolver).renamed ρ.rename advisories) = ran'
    at hends
  cases hends with
  | error hcode => exact .error hcode
  | ok more hvalue hafter => exact .ok more hvalue ⟨hafter.trail, hafter.registered⟩

theorem corresponds_under (resolver : Resolver) {step : Step α} {step' : Step β}
    (h : Corresponds ρ R step step') :
    Corresponds ρ R (under resolver step) (under resolver step') :=
  fun before hfits => correspondsAt_under resolver
    (h (before.pushResolver resolver) ⟨hfits.trail, hfits.registered⟩)

theorem corresponds_onLevel {step : Step α} {step' : Step β} (h : Corresponds ρ R step step') :
    Corresponds ρ (fun value value' => R value.1 value'.1
        ∧ value'.2 = Resolved.spacesRenamed ρ.rename value.2)
      (onLevel step) (onLevel step') := by
  intro before hfits advisories
  have hends := h before.openLevel hfits.openLevel advisories
  rw [run_onLevel, run_onLevel]
  change Outcomes ρ _ _ ((step'.run' schema
      (before.openLevel.renamed ρ.rename advisories)).1.bind fun value =>
        (Levels.close ((step'.run' schema (before.openLevel.renamed ρ.rename
          advisories)).2.levels.headD [])).map fun spaces => (value, spaces),
    (step'.run' schema (before.openLevel.renamed ρ.rename advisories)).2.leaveLevel)
  generalize step.run' schema before.openLevel = ran at hends
  generalize step'.run' schema (before.openLevel.renamed ρ.rename advisories) = ran' at hends
  cases hends with
  | error hcode => exact .error hcode
  | @ok value value' after more hvalue hafter =>
    have hclose : Agrees _ (Levels.close (after.levels.headD []))
        (Levels.close ((after.levels.headD []).map (OpenSpace.renamed ρ.rename))) :=
      Levels.close_renamed (after.levels.headD [])
    rw [← Levels.headD_renamed] at hclose
    rw [Context.leaveLevel_renamed]
    change Outcomes ρ _ _ ((Levels.close ((after.levels.renamed ρ.rename).headD [])).map
      fun spaces => (value', spaces), _)
    dsimp only [Except.bind]
    generalize Levels.close (after.levels.headD []) = closed at hclose
    generalize Levels.close ((after.levels.renamed ρ.rename).headD []) = closed' at hclose
    cases hclose with
    | error hcode => exact .error hcode
    | ok hspaces => exact .ok more ⟨hvalue, hspaces⟩ hafter.leaveLevel

end Step
end EntityQuery.Interpretation

import EntityQuery.Proofs.CorrespondingRuns
import EntityQuery.Proofs.EmbeddedStates

/-!
# Runs of an embedded query

What a step of a query does when the query is interpreted alone, it does within another query as
well: where the step ends with a value alone, it ends with the value under later numbers and
variables in the embedded state, and leaves the state around as it was. There is one rule for each
way of putting steps together and one for each elementary step.

* `Context.Progresses`, `Context.Inside`: what the steps of a query keep of the state.
* `Step.Embeds`: the comparison; `Step.EmbedsAt`: the comparison in one state.
* `Step.embeds_bind`, `Step.embeds_under`, `Step.embedsAt_onLevel`: steps put together.
* `Step.embeds_registerElement`, `Step.embeds_updateSpace`, …: elementary steps.
-/

namespace EntityQuery.Interpretation

/-- As many from clauses are open. -/
def Levels.SameDepth (levels later : Levels) : Prop := later.length = levels.length

namespace Context

/-- How a step of a query changes the state: it leaves the levels that it opens, and a style of
parameters stays fixed. -/
structure Progresses (before after : Context) : Prop extends
    Proceeds Levels.SameDepth before after where
  style : ∀ style ∈ before.style?, style ∈ after.style?

/-- The state of a query that has opened its level. -/
structure Inside (context : Context) : Prop where
  trail : context.trail.Entered
  resolvers : context.resolvers ≠ []
  levels : context.levels ≠ []

/-- The parameters around are in the style of the query. -/
def SharesStyle (around alone : Context) : Prop :=
  ∀ style ∈ alone.style?, ∀ fixed ∈ around.style?, fixed = style

variable {before between after : Context}

namespace Progresses

theorem of_same (hresolvers : after.resolvers = before.resolvers)
    (htrail : after.trail = before.trail) (hlevels : after.levels.length = before.levels.length)
    (hstyle : after.style? = before.style?) : before.Progresses after :=
  ⟨.of_levels hresolvers htrail hlevels, fun _ h => hstyle ▸ h⟩

theorem refl (context : Context) : context.Progresses context := .of_same rfl rfl rfl rfl

theorem marked (context : Context) (mark : Mark) (hmark : mark.isOpened = false) :
    context.Progresses { context with trail := mark :: context.trail } :=
  ⟨.marked (Eq.refl context.levels.length) hmark, fun _ h => h⟩

theorem trans (h : before.Progresses between) (h' : between.Progresses after) :
    before.Progresses after :=
  ⟨h.toProceeds.trans (fun hfirst hsecond => Eq.trans hsecond hfirst) h'.toProceeds,
    fun style hstyle => h'.style style (h.style style hstyle)⟩

theorem under {resolver : Resolver} (h : (before.pushResolver resolver).Progresses after) :
    before.Progresses after.popResolver :=
  ⟨⟨congrArg List.tail h.resolvers, h.trail, h.levels⟩, h.style⟩

theorem onLevel (h : before.openLevel.Progresses after) : before.Progresses after.leaveLevel := by
  obtain ⟨marks, htrail, hmarks⟩ := h.trail
  have hopened : after.trail = marks ++ .opened :: before.trail := htrail
  have hlength : after.levels.length = before.levels.length + 1 := h.levels
  refine ⟨.of_levels (congrArg List.tail h.resolvers) ?_ ?_, h.style⟩
  · change after.trail.leave = before.trail
    rw [hopened, Trail.leave_append _ hmarks]
  · change after.levels.tail.length = before.levels.length
    rw [List.length_tail, hlength]
    rfl

end Progresses

namespace Inside

theorem progress (h : before.Inside) (hprogresses : before.Progresses after) : after.Inside where
  trail := by
    obtain ⟨later, htrail, -⟩ := hprogresses.trail
    obtain ⟨marks, hmarks⟩ := h.trail
    exact ⟨later ++ marks, by rw [htrail, hmarks, List.append_assoc]⟩
  resolvers := by
    rw [hprogresses.resolvers]
    exact h.resolvers
  levels := by
    have hlength : after.levels.length = before.levels.length := hprogresses.levels
    intro hnil
    rw [hnil] at hlength
    exact h.levels (List.length_eq_zero_iff.mp hlength.symm)

theorem pushResolver (h : before.Inside) (resolver : Resolver) :
    (before.pushResolver resolver).Inside :=
  ⟨h.trail, List.cons_ne_nil _ _, h.levels⟩

theorem openLevel (h : before.Inside) : before.openLevel.Inside where
  trail := by
    obtain ⟨marks, hmarks⟩ := h.trail
    exact ⟨.opened :: marks, congrArg (List.cons _) hmarks⟩
  resolvers := List.cons_ne_nil _ _
  levels := List.cons_ne_nil _ _

/-- A query that is interpreted alone opens the outermost level. -/
theorem outermost : empty.openLevel.Inside :=
  ⟨⟨[], rfl⟩, List.cons_ne_nil _ _, List.cons_ne_nil _ _⟩

end Inside

theorem SharesStyle.earlier {around : Context} (h : around.SharesStyle after)
    (hprogresses : before.Progresses after) : around.SharesStyle before :=
  fun style hstyle => h style (hprogresses.style style hstyle)

end Context

namespace Step

/-- From a state, the step ends in such a way that the second step, from the embedded state, ends
with a related value in the embedded state, provided that the parameters around are in the style of
the query. -/
def EmbedsAt (schema : Schema) (around : Context) {α β : Type} (R : α → β → Prop)
    (before : Context) (step : Step α) (step' : Step β) : Prop :=
  Ends schema before step fun value after => before.Progresses after ∧ ∃ value', R value value' ∧
    (around.SharesStyle after → ∀ advisories, ∃ more,
      step'.run' schema (before.embedded around advisories)
        = (.ok value', after.embedded around more))

/-- From every state within a level, the second step ends with the value that `f` makes of that of
the first one. -/
def Embeds (schema : Schema) (around : Context) {α β : Type} (f : α → β) (step : Step α)
    (step' : Step β) : Prop :=
  ∀ before, before.Inside →
    EmbedsAt schema around (fun value value' => value' = f value) before step step'

variable {schema : Schema} {around : Context} {α β γ δ : Type} {R : α → β → Prop}
  {S : γ → δ → Prop} {f : α → β} {g : γ → δ}

/-! ## Steps put together -/

theorem embedsAt_pure (before : Context) {value : α} {value' : β} (h : R value value') :
    EmbedsAt schema around R before (pure value) (pure value') :=
  ends_pure ⟨.refl before, value', h, fun _ advisories => ⟨advisories, rfl⟩⟩

theorem embeds_pure {value : α} {value' : β} (h : value' = f value) :
    Embeds schema around f (pure value) (pure value') :=
  fun before _ => embedsAt_pure before h

/-- Nothing is asked of what a failing step is compared to. -/
theorem embeds_throw (fault : Fault) (step' : Step β) :
    Embeds schema around f (throw fault : Step α) step' :=
  fun _ _ => ends_throw fault

theorem embeds_throw_bind (fault : Fault) (second : γ → Step α) (step' : Step β) :
    Embeds schema around f ((throw fault : Step γ) >>= second) step' :=
  fun _ _ => ends_throw_bind fault second

/-- The second step may rely on how the first one ended. -/
theorem embedsAt_bind {before : Context} {first : Step α} {first' : Step β} {second : α → Step γ}
    {second' : β → Step δ} (hfirst : EmbedsAt schema around R before first first')
    (hsecond : ∀ value value' between, first.run' schema before = (.ok value, between) →
      before.Progresses between → R value value' →
        EmbedsAt schema around S between (second value) (second' value')) :
    EmbedsAt schema around S before (first >>= second) (first' >>= second') := by
  intro value after hrun
  obtain ⟨one, between, hone, htwo⟩ := run_bind_ok.mp hrun
  obtain ⟨hprogresses, one', hvalue, hembeds⟩ := hfirst one between hone
  obtain ⟨hlater, two', hvalue', hembeds'⟩ :=
    hsecond one one' between hone hprogresses hvalue value after htwo
  refine ⟨hprogresses.trans hlater, two', hvalue', fun hshares advisories => ?_⟩
  obtain ⟨more, hmore⟩ := hembeds (hshares.earlier hlater) advisories
  obtain ⟨most, hmost⟩ := hembeds' hshares more
  exact ⟨most, run_bind_ok.mpr ⟨one', between.embedded around more, hmore, hmost⟩⟩

/-- The second step starts within the level as well. -/
theorem embedsAt_next {before : Context} {first : Step α} {first' : Step β} {second : α → Step γ}
    {second' : β → Step δ} (hfirst : Embeds schema around f first first') (hinside : before.Inside)
    (hsecond : ∀ value between, between.Inside →
      EmbedsAt schema around S between (second value) (second' (f value))) :
    EmbedsAt schema around S before (first >>= second) (first' >>= second') := by
  refine embedsAt_bind (hfirst before hinside) ?_
  rintro value _ between - hprogresses rfl
  exact hsecond value between (hinside.progress hprogresses)

theorem embeds_bind {first : Step α} {first' : Step β} {second : α → Step γ} {second' : β → Step δ}
    (hfirst : Embeds schema around f first first')
    (hsecond : ∀ value, Embeds schema around g (second value) (second' (f value))) :
    Embeds schema around g (first >>= second) (first' >>= second') :=
  fun _ hinside => embedsAt_next hfirst hinside hsecond

/-- What is read off a state is read off the embedded one. -/
theorem embeds_get_bind {second : Context → Step α} {second' : Context → Step β}
    (h : ∀ context advisories, context.Inside →
      EmbedsAt schema around (fun value value' => value' = f value) context (second context)
        (second' (context.embedded around advisories))) :
    Embeds schema around f (get >>= second) (get >>= second') := by
  intro before hinside value after hrun
  refine ⟨(h before [] hinside value after hrun).1, f value, rfl, fun hshares advisories => ?_⟩
  obtain ⟨-, _, rfl, hembeds⟩ := h before advisories hinside value after hrun
  exact hembeds hshares advisories

theorem embeds_read_bind {second : Schema → Step α} {second' : Schema → Step β}
    (h : Embeds schema around f (second schema) (second' schema)) :
    Embeds schema around f (read >>= second) (read >>= second') :=
  h

theorem embeds_ofExcept {check : Except Fault α} {check' : Except Fault β}
    (h : ∀ value, check = .ok value → check' = .ok (f value)) :
    Embeds schema around f (ofExcept check) (ofExcept check') := by
  cases check with
  | error fault => exact embeds_throw fault _
  | ok value =>
    rw [h value rfl]
    exact embeds_pure rfl

/-- Outside the strict language nothing is checked. -/
theorem run_comply (hlenient : schema.strict = false) (violated : Bool) (breach : Breach)
    (context : Context) : (comply violated breach).run' schema context = (.ok (), context) := by
  change ((if violated && schema.strict then throw (.strict breach) else pure () : Step Unit).run'
    schema context) = _
  rw [hlenient, Bool.and_false]
  rfl

theorem embedsAt_comply (hlenient : schema.strict = false) (before : Context)
    (violated violated' : Bool) (breach breach' : Breach) :
    EmbedsAt schema around (fun value value' => value' = id value) before
      (comply violated breach) (comply violated' breach') := by
  intro value after hrun
  rw [run_comply hlenient] at hrun
  cases hrun
  exact ⟨.refl before, (), rfl, fun _ advisories =>
    ⟨advisories, run_comply hlenient violated' breach' _⟩⟩

theorem embeds_comply (hlenient : schema.strict = false) (violated violated' : Bool)
    (breach breach' : Breach) :
    Embeds schema around id (comply violated breach) (comply violated' breach') :=
  fun before _ => embedsAt_comply hlenient before violated violated' breach breach'

/-! ## Elementary steps -/

theorem embeds_modify {change change' : Context → Context}
    (h : ∀ context, context.Progresses (change context) ∧ ∀ advisories, ∃ more,
      change' (context.embedded around advisories) = (change context).embedded around more) :
    Embeds schema around id (modify change) (modify change') := by
  intro before _
  refine ends_modify ⟨(h before).1, (), rfl, fun _ advisories => ?_⟩
  obtain ⟨more, hmore⟩ := (h before).2 advisories
  exact ⟨more, congrArg (Prod.mk _) hmore⟩

theorem embeds_change {change change' : Context → Except Fault Context}
    (h : ∀ context after, context.Inside → change context = .ok after →
      context.Progresses after ∧ (around.SharesStyle after → ∀ advisories,
        change' (context.embedded around advisories) = .ok (after.embedded around advisories))) :
    Embeds schema around id (Step.change change) (Step.change change') := by
  refine fun before hinside => ends_change fun after hchange => ?_
  obtain ⟨hprogresses, hembeds⟩ := h before after hinside hchange
  exact ⟨hprogresses, (), rfl, fun hshares advisories =>
    ⟨advisories, run_change_ok (hembeds hshares advisories)⟩⟩

theorem embeds_advise (code : Report.Code) (message message' : String) :
    Embeds schema around id (modify fun context => context.advise code message)
      (modify fun context => context.advise code message') :=
  embeds_modify fun _ => ⟨.of_same rfl rfl rfl rfl, fun advisories =>
    ⟨advisories ++ [⟨code, message'⟩], rfl⟩⟩

theorem embeds_narrow (haround : around.Numbered) (uid : Nat) (entity : EntityReference) :
    Embeds schema around id (modify fun context => context.narrow uid entity)
      (modify fun context => context.narrow (around.nextUid + uid) entity) :=
  embeds_modify fun context => ⟨.of_same rfl rfl rfl rfl, fun advisories =>
    ⟨advisories, Context.narrow_embedded haround context uid entity⟩⟩

theorem embeds_register (element : FromElement) :
    Embeds schema around id (modify fun context => context.register element)
      (modify fun context => context.register (element.embedded around)) :=
  embeds_modify fun _ => ⟨.of_same rfl rfl rfl rfl, fun advisories => ⟨advisories, rfl⟩⟩

/-- Numbers are drawn after those that were drawn around. -/
theorem embeds_drawUid : Embeds schema around (around.nextUid + ·) drawUid drawUid :=
  fun _ _ => ends_drawUid
    ⟨.of_same rfl rfl rfl rfl, _, rfl, fun _ advisories => ⟨advisories, rfl⟩⟩

theorem embeds_drawAlias : Embeds schema around around.embeddedName drawAlias drawAlias := by
  refine fun before _ => ends_drawAlias ⟨.of_same rfl rfl rfl rfl, _, rfl, fun _ advisories => ?_⟩
  rw [around.embeddedName_generated]
  exact ⟨advisories, rfl⟩

theorem embeds_openSpace :
    Embeds schema around (SpaceId.embedded around) openSpace openSpace := by
  refine fun before _ => ends_openSpace fun id levels hopened => ?_
  have hlength : levels.length = before.levels.length :=
    (Levels.keepBelow_openSpace hopened).1
  refine ⟨.of_same rfl rfl hlength rfl, _, rfl, fun _ advisories => ⟨advisories, ?_⟩⟩
  exact run_openSpace_ok (Levels.openSpace_embedded hopened)

theorem embeds_updateSpace (space : SpaceId) {change change' : OpenSpace → Except Fault OpenSpace}
    (h : ∀ opened filled, change opened = .ok filled →
      change' (opened.embedded around) = .ok (filled.embedded around)) :
    Embeds schema around id (updateSpace space change)
      (updateSpace (space.embedded around) change') := by
  refine embeds_change fun context after _ hupdate => ?_
  cases hlevels : context.levels.update change space with
  | error fault =>
    rw [hlevels] at hupdate
    cases hupdate
  | ok levels =>
    rw [hlevels] at hupdate
    cases hupdate
    obtain ⟨place, opened, filled, hopened, rfl, -, -⟩ := Levels.update_ok hlevels
    refine ⟨.of_same rfl rfl (fill_length filled hopened) rfl, fun _ advisories => ?_⟩
    have hembedded : (context.embedded around advisories).levels.update change'
        (space.embedded around) = .ok ((place.fill filled).embedded around) :=
      Levels.update_embedded h hlevels
    simp only [hembedded]
    rfl

/-- An element of the query is bound in its own scope. -/
theorem embeds_registerElement (element : FromElement) :
    Embeds schema around id (registerElement element)
      (registerElement (element.embedded around)) := by
  refine embeds_bind (embeds_register element) fun _ => ?_
  refine embeds_change fun context after hinside hbind => ?_
  cases htrail : context.trail.bind element with
  | error fault =>
    rw [htrail] at hbind
    cases hbind
  | ok trail =>
    rw [htrail] at hbind
    cases hbind
    refine ⟨?_, fun _ advisories => ?_⟩
    · rw [(Trail.bind_ok htrail).1]
      exact .marked context (.element element) rfl
    · change (Trail.bind (context.trail.embedded around) _).map _ = _
      rw [Trail.bind_embedded hinside.trail htrail]
      rfl

theorem embeds_bindSelection (position : Nat) {selection : Resolved.Selection}
    (hname : ∀ aliasName ∈ selection.alias?, PlainName aliasName) :
    Embeds schema around id (bindSelection position selection)
      (bindSelection position (selection.rebuilt false (FromElement.embedded around))) := by
  refine embeds_change fun context after hinside hbind => ?_
  cases htrail : context.trail.bindSelection position selection with
  | error fault =>
    rw [htrail] at hbind
    cases hbind
  | ok trail =>
    rw [htrail] at hbind
    cases hbind
    refine ⟨?_, fun _ advisories => ?_⟩
    · rcases Trail.bindSelection_ok htrail with ⟨-, rfl⟩ | ⟨aliasName, -, rfl⟩
      · exact .of_same rfl rfl rfl rfl
      · exact .marked context (.selection ⟨aliasName, position, selection.expression⟩) rfl
    · change (Trail.bindSelection (context.trail.embedded around) _ _).map _ = _
      rw [Trail.bindSelection_embedded hinside.trail hname htrail]
      rfl

/-! ## Steps that put the state back -/

theorem embedsAt_under {before : Context} (resolver : Resolver) {step : Step α} {step' : Step β}
    (h : EmbedsAt schema around R (before.pushResolver resolver) step step') :
    EmbedsAt schema around R before (under resolver step)
      (under (resolver.embedded around) step') := by
  refine ends_under (ends_mono h ?_)
  rintro value after ⟨hprogresses, value', hvalue, hembeds⟩
  refine ⟨hprogresses.under, value', hvalue, fun hshares advisories => ?_⟩
  obtain ⟨more, hmore⟩ := hembeds hshares advisories
  have hpopped : (after.embedded around more).popResolver
      = after.popResolver.embedded around more := by
    have hresolvers : (after.resolvers.map (Resolver.embedded around) ++ around.resolvers).tail
        = after.resolvers.tail.map (Resolver.embedded around) ++ around.resolvers := by
      rw [hprogresses.resolvers]
      rfl
    simp only [Context.popResolver, Context.embedded, hresolvers]
  have hpushed : (before.embedded around advisories).pushResolver (resolver.embedded around)
      = (before.pushResolver resolver).embedded around advisories := rfl
  refine ⟨more, ?_⟩
  rw [run_under, hpushed, hmore, hpopped]

theorem embeds_under (resolver : Resolver) {step : Step α} {step' : Step β}
    (h : Embeds schema around f step step') :
    Embeds schema around f (under resolver step) (under (resolver.embedded around) step') :=
  fun before hinside => embedsAt_under resolver
    (h (before.pushResolver resolver) (hinside.pushResolver resolver))

/-- A query opens its level on top of those around. -/
theorem embedsAt_onLevel {before : Context} {step : Step α} {step' : Step β}
    (h : EmbedsAt schema around R before.openLevel step step') :
    EmbedsAt schema around (fun value value' => R value.1 value'.1
        ∧ value'.2 = value.2.map (Resolved.Space.rebuilt false (FromElement.embedded around)))
      before (onLevel step) (onLevel step') := by
  refine ends_onLevel (ends_mono h ?_)
  rintro value after ⟨hprogresses, value', hvalue, hembeds⟩ spaces hclose
  refine ⟨hprogresses.onLevel, (value', _), ⟨hvalue, rfl⟩, fun hshares advisories => ?_⟩
  obtain ⟨more, hmore⟩ := hembeds hshares advisories
  have hlevels : after.levels ≠ [] := by
    have hlength : after.levels.length = before.levels.length + 1 := hprogresses.levels
    intro hnil
    rw [hnil] at hlength
    cases hlength
  have hspaces : (after.embedded around more).levels.headD []
      = (after.levels.headD []).map (OpenSpace.embedded around) := Levels.headD_embedded hlevels
  have hopened : (before.embedded around advisories).openLevel
      = before.openLevel.embedded around advisories := rfl
  refine ⟨more, ?_⟩
  rw [run_onLevel, hopened, hmore]
  dsimp only [Except.bind]
  rw [hspaces, OpenSpace.embedded, Levels.close_rebuilt hclose,
    Context.leaveLevel_embedded hprogresses.toProceeds hlevels]
  rfl

end Step
end EntityQuery.Interpretation

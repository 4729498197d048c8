import EntityQuery.Interpretation.Path

/-!
# Outcomes of steps

A step reads the schema, changes the state of an interpretation and may fail. What is proved about
steps is stated for the outcomes that are no failure: `Ends schema before step Q` says that each of
them, together with the state that it leaves, satisfies `Q`. One rule for each way of putting steps
together and one for each elementary step bring a claim about a step down to claims about its parts.

Two steps are compared where neither of them fails: `Together schema before before' step step' Q`
says that then `Q` relates their values and the states that they leave, with the same rules.

* `Step.Ends`, `Step.Together`: one run, and two runs.
* `Step.ends_bind`, `Step.ends_under`, `Step.ends_onLevel`: steps put together.
* `Step.together_bind`, `Step.together_under`, `Step.together_onLevel`: two steps of each kind.
-/

namespace EntityQuery.Interpretation.Step

/-- Every outcome of a step that is no failure satisfies `Q`, with the state that it leaves. -/
def Ends {α : Type} (schema : Schema) (before : Context) (step : Step α)
    (Q : α → Context → Prop) : Prop :=
  ∀ value after, step.run' schema before = (.ok value, after) → Q value after

variable {α β : Type} {schema : Schema} {before : Context} {Q : α → Context → Prop}
  {R : β → Context → Prop}

/-! ## Putting steps together -/

theorem ends_pure {value : α} (h : Q value before) : Ends schema before (pure value) Q := by
  intro result after hrun
  cases hrun
  exact h

theorem ends_throw (fault : Fault) : Ends schema before (throw fault : Step α) Q := by
  intro result after hrun
  cases hrun

theorem run_bind (first : Step α) (second : α → Step β) :
    (first >>= second).run' schema before =
      match first.run' schema before with
      | (.ok value, between) => (second value).run' schema between
      | (.error fault, between) => (.error fault, between) := by
  simp only [run', ReaderT.run, bind, ReaderT.bind, ExceptT.bind, ExceptT.mk, StateT.bind]
  cases first schema before with
  | mk outcome between => cases outcome <;> rfl

/-- A run of two steps that does not fail is a run of the first and one of the second. -/
theorem run_bind_ok {first : Step α} {second : α → Step β} {result : β} {after : Context} :
    (first >>= second).run' schema before = (.ok result, after) ↔
      ∃ value between, first.run' schema before = (.ok value, between) ∧
        (second value).run' schema between = (.ok result, after) := by
  rw [run_bind]
  cases hfirst : first.run' schema before with
  | mk outcome between =>
    cases outcome with
    | error fault => simp
    | ok value =>
      constructor
      · intro h
        exact ⟨value, between, rfl, h⟩
      · rintro ⟨_, _, heq, h⟩
        cases heq
        exact h

theorem ends_bind {first : Step α} {second : α → Step β}
    (hfirst : Ends schema before first Q)
    (hsecond : ∀ value between, Q value between → Ends schema between (second value) R) :
    Ends schema before (first >>= second) R := by
  intro result after hrun
  obtain ⟨value, between, hone, htwo⟩ := run_bind_ok.mp hrun
  exact hsecond value between (hfirst value between hone) result after htwo

theorem ends_mono {step : Step α} {P : α → Context → Prop} (h : Ends schema before step P)
    (himp : ∀ value after, P value after → Q value after) : Ends schema before step Q :=
  fun value after hrun => himp value after (h value after hrun)

/-- Two facts about one run. -/
theorem ends_both {step : Step α} {P : α → Context → Prop} (h : Ends schema before step P)
    (h' : Ends schema before step Q) :
    Ends schema before step fun value after => P value after ∧ Q value after :=
  fun value after hrun => ⟨h value after hrun, h' value after hrun⟩

theorem ends_throw_bind (fault : Fault) (second : α → Step β) :
    Ends schema before ((throw fault : Step α) >>= second) R :=
  ends_bind (ends_throw (Q := fun _ _ => False) fault) fun _ _ h => h.elim

theorem ends_get_bind {second : Context → Step β} (h : Ends schema before (second before) R) :
    Ends schema before (get >>= second) R :=
  h

theorem ends_read_bind {second : Schema → Step β} (h : Ends schema before (second schema) R) :
    Ends schema before (read >>= second) R :=
  h

theorem ends_modify {change : Context → Context} {Q : Unit → Context → Prop}
    (h : Q () (change before)) : Ends schema before (modify change) Q := by
  intro result after hrun
  cases hrun
  exact h

theorem ends_modify_bind {change : Context → Context} {second : Unit → Step β}
    (h : Ends schema (change before) (second ()) R) :
    Ends schema before (modify change >>= second) R :=
  h

theorem ends_mapM {items : List β} {visit : β → Step α} (I : List α → Context → Prop)
    (hstart : I [] before)
    (hvisit : ∀ item ∈ items, ∀ done context, I done context →
      Ends schema context (visit item) fun value after => I (done ++ [value]) after) :
    Ends schema before (items.mapM visit) I := by
  suffices h : ∀ done context, I done context →
      Ends schema context (items.mapM visit) fun values after => I (done ++ values) after by
    simpa using h [] before hstart
  clear hstart
  induction items with
  | nil =>
    intro done context hI
    rw [List.mapM_nil]
    exact ends_pure (by simpa using hI)
  | cons item items ih =>
    intro done context hI
    rw [List.mapM_cons]
    refine ends_bind (hvisit item List.mem_cons_self done context hI) fun value between hv => ?_
    refine ends_bind (ih (fun other hother => hvisit other (List.mem_cons_of_mem _ hother))
      (done ++ [value]) between hv) fun values after hvs => ends_pure ?_
    simpa using hvs

/-! ## Elementary steps -/

theorem ends_change {change : Context → Except Fault Context} {Q : Unit → Context → Prop}
    (h : ∀ after, change before = .ok after → Q () after) :
    Ends schema before (Step.change change) Q := by
  refine ends_get_bind ?_
  cases hchange : change before with
  | error fault => exact ends_throw fault
  | ok after =>
    intro result final hrun
    cases hrun
    exact h _ hchange

theorem ends_drawUid {Q : Nat → Context → Prop}
    (h : Q before.nextUid { before with nextUid := before.nextUid + 1 }) :
    Ends schema before drawUid Q := by
  intro result after hrun
  cases hrun
  exact h

theorem ends_drawAlias {Q : String → Context → Prop}
    (h : Q (Context.generatedAlias before.nextAlias)
      { before with nextAlias := before.nextAlias + 1 }) :
    Ends schema before drawAlias Q := by
  intro result after hrun
  cases hrun
  exact h

theorem ends_comply {violated : Bool} {breach : Breach} {Q : Unit → Context → Prop}
    (h : Q () before) : Ends schema before (comply violated breach) Q := by
  refine ends_read_bind ?_
  split
  · exact ends_throw _
  · exact ends_pure h

theorem ends_ofExcept {check : Except Fault α} (h : ∀ value, check = .ok value → Q value before) :
    Ends schema before (ofExcept check) Q := by
  cases check with
  | error fault => exact ends_throw fault
  | ok value => exact ends_pure (h value rfl)

theorem ends_attempt {step : Step α} {Q : Except Fault α → Context → Prop}
    (h : Q (step.run' schema before).1 (step.run' schema before).2) :
    Ends schema before (attempt step) Q := by
  intro result after hrun
  cases hrun
  exact h

/-- A step under a resolver runs with that resolver, which is taken back afterwards. -/
theorem ends_under {resolver : Resolver} {step : Step α}
    (h : Ends schema (before.pushResolver resolver) step
      fun value after => Q value after.popResolver) :
    Ends schema before (under resolver step) Q := by
  refine ends_modify_bind ?_
  -- The outcome of the inner step is named, so that both of its cases can be looked at.
  generalize hstep : step.run' schema (before.pushResolver resolver) = ran
  refine ends_bind (ends_attempt (Q := fun outcome left => (outcome, left) = ran) ?_) ?_
  · rw [hstep]
  · rintro outcome left rfl
    refine ends_modify_bind ?_
    cases outcome with
    | error fault => exact ends_throw fault
    | ok value => exact ends_pure (h value left hstep)

/-- A step on a level of its own; the spaces of the level are finished when it is left. -/
theorem ends_onLevel {step : Step α} {Q : α × List Resolved.Space → Context → Prop}
    (h : Ends schema before.openLevel step fun value after => ∀ spaces,
      Levels.close (after.levels.headD []) = .ok spaces → Q (value, spaces) after.leaveLevel) :
    Ends schema before (onLevel step) Q := by
  refine ends_modify_bind ?_
  generalize hstep : step.run' schema before.openLevel = ran
  refine ends_bind (ends_attempt (Q := fun outcome left => (outcome, left) = ran) ?_) ?_
  · rw [hstep]
  · rintro outcome left rfl
    refine ends_get_bind (ends_modify_bind ?_)
    cases outcome with
    | error fault => exact ends_throw fault
    | ok value =>
      have hvalue := h value left hstep
      cases hclose : Levels.close (left.levels.headD []) with
      | error fault => exact ends_throw fault
      | ok spaces => exact ends_pure (hvalue spaces hclose)

theorem ends_openSpace {Q : SpaceId → Context → Prop}
    (h : ∀ id levels, before.levels.openSpace = .ok (id, levels) →
      Q id { before with levels := levels }) :
    Ends schema before openSpace Q := by
  refine ends_get_bind ?_
  cases hopen : before.levels.openSpace with
  | error fault => exact ends_throw fault
  | ok opened =>
    intro result after hrun
    cases hrun
    exact h _ _ hopen

theorem ends_updateSpace {id : SpaceId} {change : OpenSpace → Except Fault OpenSpace}
    {Q : Unit → Context → Prop}
    (h : ∀ levels, before.levels.update change id = .ok levels →
      Q () { before with levels := levels }) :
    Ends schema before (updateSpace id change) Q := by
  refine ends_change fun after hchange => ?_
  cases hupdate : before.levels.update change id with
  | error fault => simp [hupdate, Except.map] at hchange
  | ok levels =>
    simp only [hupdate, Except.map, Except.ok.injEq] at hchange
    subst hchange
    exact h levels hupdate

theorem ends_registerElement {element : FromElement} {Q : Unit → Context → Prop}
    (h : ∀ trail, before.trail.bind element = .ok trail →
      Q () { before.register element with trail := trail }) :
    Ends schema before (registerElement element) Q := by
  refine ends_modify_bind (ends_change fun after hchange => ?_)
  change (before.trail.bind element).map _ = .ok after at hchange
  cases hbind : before.trail.bind element with
  | error fault => simp [hbind, Except.map] at hchange
  | ok trail =>
    simp only [hbind, Except.map, Except.ok.injEq] at hchange
    subst hchange
    exact h trail hbind

theorem ends_bindSelection {position : Nat} {selection : Resolved.Selection}
    {Q : Unit → Context → Prop}
    (h : ∀ trail, before.trail.bindSelection position selection = .ok trail →
      Q () { before with trail := trail }) :
    Ends schema before (bindSelection position selection) Q := by
  refine ends_change fun after hchange => ?_
  cases hbind : before.trail.bindSelection position selection with
  | error fault => simp [hbind, Except.map] at hchange
  | ok trail =>
    simp only [hbind, Except.map, Except.ok.injEq] at hchange
    subst hchange
    exact h trail hbind

end EntityQuery.Interpretation.Step

namespace EntityQuery.Interpretation.Step

/-! ## Two runs -/

/-- Where neither of two steps fails, `Q` relates their values and the states that they leave. -/
def Together {α β : Type} (schema : Schema) (before before' : Context) (step : Step α)
    (step' : Step β) (Q : α → β → Context → Context → Prop) : Prop :=
  Ends schema before step fun value after =>
    Ends schema before' step' fun value' after' => Q value value' after after'

variable {α β γ δ : Type} {schema : Schema} {before before' : Context}
  {Q : α → β → Context → Context → Prop} {R : γ → δ → Context → Context → Prop}

/-! ## Putting two steps of each kind together -/

theorem together_pure {value : α} {value' : β} (h : Q value value' before before') :
    Together schema before before' (pure value) (pure value') Q :=
  ends_pure (ends_pure h)

/-- Nothing is said where the first step fails. -/
theorem together_fails {step : Step α} {step' : Step β}
    (h : Ends schema before step fun _ _ => False) :
    Together schema before before' step step' Q :=
  ends_mono h fun _ _ hfalse => hfalse.elim

theorem together_throw (fault : Fault) (step' : Step β) :
    Together schema before before' (throw fault : Step α) step' Q :=
  ends_throw fault

theorem together_throw_right (fault : Fault) (step : Step α) :
    Together schema before before' step (throw fault : Step β) Q :=
  fun _ _ _ => ends_throw fault

theorem together_throw_bind (fault : Fault) (second : γ → Step α) (step' : Step β) :
    Together schema before before' ((throw fault : Step γ) >>= second) step' Q :=
  ends_throw_bind fault second

theorem together_throw_bind_right (fault : Fault) (second : γ → Step β) (step : Step α) :
    Together schema before before' step ((throw fault : Step γ) >>= second) Q :=
  fun _ _ _ => ends_throw_bind fault second

theorem together_bind {first : Step α} {first' : Step β} {second : α → Step γ}
    {second' : β → Step δ} (hfirst : Together schema before before' first first' Q)
    (hsecond : ∀ value value' between between', Q value value' between between' →
      Together schema between between' (second value) (second' value') R) :
    Together schema before before' (first >>= second) (first' >>= second') R := by
  intro result after hrun
  obtain ⟨value, between, hone, htwo⟩ := run_bind_ok.mp hrun
  refine ends_bind (hfirst value between hone) fun value' between' hQ => ?_
  exact hsecond value value' between between' hQ result after htwo

theorem together_mono {step : Step α} {step' : Step β} {P : α → β → Context → Context → Prop}
    (h : Together schema before before' step step' P)
    (himp : ∀ value value' after after', P value value' after after' →
      Q value value' after after') :
    Together schema before before' step step' Q :=
  ends_mono h fun value after hvalue =>
    ends_mono hvalue fun value' after' => himp value value' after after'

/-- What is known of the first run alone may be used. -/
theorem together_with {step : Step α} {step' : Step β} {P : α → Context → Prop}
    (h : Together schema before before' step step' Q) (hends : Ends schema before step P) :
    Together schema before before' step step' fun value value' after after' =>
      Q value value' after after' ∧ P value after :=
  fun value after hrun => ends_mono (h value after hrun) fun _ _ hQ => ⟨hQ, hends value after hrun⟩

theorem together_get_bind {second : Context → Step α} {second' : Context → Step β}
    (h : Together schema before before' (second before) (second' before') Q) :
    Together schema before before' (get >>= second) (get >>= second') Q :=
  fun value after hrun value' after' hrun' => h value after hrun value' after' hrun'

theorem together_read_bind {second : Schema → Step α} {second' : Schema → Step β}
    (h : Together schema before before' (second schema) (second' schema) Q) :
    Together schema before before' (read >>= second) (read >>= second') Q :=
  fun value after hrun value' after' hrun' => h value after hrun value' after' hrun'

theorem together_modify {change change' : Context → Context}
    {Q : Unit → Unit → Context → Context → Prop} (h : Q () () (change before) (change' before')) :
    Together schema before before' (modify change) (modify change') Q :=
  ends_modify (ends_modify h)

/-! ## Two elementary steps -/

theorem together_change {change change' : Context → Except Fault Context}
    {Q : Unit → Unit → Context → Context → Prop}
    (h : ∀ after after', change before = .ok after → change' before' = .ok after' →
      Q () () after after') :
    Together schema before before' (Step.change change) (Step.change change') Q :=
  ends_change fun after hchange => ends_change fun after' hchange' =>
    h after after' hchange hchange'

theorem together_comply {violated violated' : Bool} {breach breach' : Breach}
    {Q : Unit → Unit → Context → Context → Prop} (h : Q () () before before') :
    Together schema before before' (comply violated breach) (comply violated' breach') Q :=
  ends_comply (ends_comply h)

theorem together_ofExcept {check : Except Fault α} {check' : Except Fault β}
    (h : ∀ value value', check = .ok value → check' = .ok value' → Q value value' before before') :
    Together schema before before' (ofExcept check) (ofExcept check') Q :=
  ends_ofExcept fun value hvalue => ends_ofExcept fun value' hvalue' =>
    h value value' hvalue hvalue'

theorem together_drawUid {Q : Nat → Nat → Context → Context → Prop}
    (h : Q before.nextUid before'.nextUid { before with nextUid := before.nextUid + 1 }
      { before' with nextUid := before'.nextUid + 1 }) :
    Together schema before before' drawUid drawUid Q :=
  ends_drawUid (ends_drawUid h)

theorem together_drawAlias {Q : String → String → Context → Context → Prop}
    (h : Q (Context.generatedAlias before.nextAlias) (Context.generatedAlias before'.nextAlias)
      { before with nextAlias := before.nextAlias + 1 }
      { before' with nextAlias := before'.nextAlias + 1 }) :
    Together schema before before' drawAlias drawAlias Q :=
  ends_drawAlias (ends_drawAlias h)

theorem together_under {resolver : Resolver} {step : Step α} {step' : Step β}
    (h : Together schema (before.pushResolver resolver) (before'.pushResolver resolver) step step'
      fun value value' after after' => Q value value' after.popResolver after'.popResolver) :
    Together schema before before' (under resolver step) (under resolver step') Q :=
  ends_under (ends_mono h fun _ _ hvalue => ends_under hvalue)

theorem together_onLevel {step : Step α} {step' : Step β}
    {Q : α × List Resolved.Space → β × List Resolved.Space → Context → Context → Prop}
    (h : Together schema before.openLevel before'.openLevel step step'
      fun value value' after after' => ∀ spaces spaces',
        Levels.close (after.levels.headD []) = .ok spaces →
        Levels.close (after'.levels.headD []) = .ok spaces' →
          Q (value, spaces) (value', spaces') after.leaveLevel after'.leaveLevel) :
    Together schema before before' (onLevel step) (onLevel step') Q :=
  ends_onLevel (ends_mono h fun _ _ hvalue spaces hclose =>
    ends_onLevel (ends_mono hvalue fun _ _ hboth spaces' hclose' =>
      hboth spaces spaces' hclose hclose'))

theorem together_openSpace {Q : SpaceId → SpaceId → Context → Context → Prop}
    (h : ∀ id levels id' levels', before.levels.openSpace = .ok (id, levels) →
      before'.levels.openSpace = .ok (id', levels') →
        Q id id' { before with levels := levels } { before' with levels := levels' }) :
    Together schema before before' openSpace openSpace Q :=
  ends_openSpace fun id levels hopen => ends_openSpace fun id' levels' hopen' =>
    h id levels id' levels' hopen hopen'

theorem together_updateSpace {id id' : SpaceId}
    {change change' : OpenSpace → Except Fault OpenSpace}
    {Q : Unit → Unit → Context → Context → Prop}
    (h : ∀ levels levels', before.levels.update change id = .ok levels →
      before'.levels.update change' id' = .ok levels' →
        Q () () { before with levels := levels } { before' with levels := levels' }) :
    Together schema before before' (updateSpace id change) (updateSpace id' change') Q :=
  ends_updateSpace fun levels hupdate => ends_updateSpace fun levels' hupdate' =>
    h levels levels' hupdate hupdate'

theorem together_registerElement {element element' : FromElement}
    {Q : Unit → Unit → Context → Context → Prop}
    (h : ∀ trail trail', before.trail.bind element = .ok trail →
      before'.trail.bind element' = .ok trail' →
        Q () () { before.register element with trail := trail }
          { before'.register element' with trail := trail' }) :
    Together schema before before' (registerElement element) (registerElement element') Q :=
  ends_registerElement fun trail hbind => ends_registerElement fun trail' hbind' =>
    h trail trail' hbind hbind'

theorem together_bindSelection {position position' : Nat}
    {selection selection' : Resolved.Selection}
    {Q : Unit → Unit → Context → Context → Prop}
    (h : ∀ trail trail', before.trail.bindSelection position selection = .ok trail →
      before'.trail.bindSelection position' selection' = .ok trail' →
        Q () () { before with trail := trail } { before' with trail := trail' }) :
    Together schema before before' (bindSelection position selection)
      (bindSelection position' selection') Q :=
  ends_bindSelection fun trail hbind => ends_bindSelection fun trail' hbind' =>
    h trail trail' hbind hbind'

end EntityQuery.Interpretation.Step

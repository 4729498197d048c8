import EntityQuery.Interpretation.Call
import EntityQuery.Interpretation.Clause
import EntityQuery.Proofs.BuiltElements
import EntityQuery.Proofs.Outcome

/-!
# States that steps leave

A step changes the state of an interpretation by a handful of elementary changes, and what it
changed before it failed stays changed. A relation between states that respects the elementary
changes therefore relates the states before and after every step, whatever its outcome.

* `FromElement.Admitted`: how an element comes by its type.
* `Motion`: the elementary changes, those of a whole step and those within one from clause;
  `Selecting` and `Leaving` keep those of a select clause and those of a level that was left.
* `Step.Moves`: a relation holds across a step, and a lenient schema finds no breach.
* `Step.run_under`, `Step.run_onLevel`: the outcome of steps that put the state back.
-/

namespace EntityQuery

/-- An entity under one of the names that are admitted. -/
def Schema.Names (schema : Schema) (treat : DottedName → Prop) (entity : EntityReference) : Prop :=
  ∃ name, treat name ∧ schema.entity? name.text = some entity

/-- How an element comes by its type: joins over entities range over mapped ones, joins through
attributes over what the attribute resolves to, unless they or other elements are narrowed to an
entity under an admitted name. -/
def FromElement.Admitted (schema : Schema) (treat : DottedName → Prop) : FromElement → Prop
  | root _ => True
  | crossJoin binding => binding.type.isPolymorphic = false
  | entityJoin binding _ => binding.type.isPolymorphic = false
  | attributeJoin binding _ join =>
    ∃ narrowed?, binding.type = Interpretation.joinedType narrowed? join.type
      ∧ schema.resolve? join.declared.type = some join.type
      ∧ ∀ entity, narrowed? = some entity → schema.Names treat entity
  | treated binding _ => ∃ entity, schema.Names treat entity ∧ binding.type = entity.type

namespace Interpretation

/-- The relations between states that the changes of a step respect: `outer` across a whole step,
`inner` across steps that fill the innermost from clause. -/
structure Motion (schema : Schema) (treat : DottedName → Prop)
    (outer inner : Context → Context → Prop) : Prop where
  refl : ∀ context, outer context context
  trans : ∀ first second third, outer first second → outer second third → outer first third
  within : ∀ before after, outer before after → inner before after
  transWithin : ∀ first second third, inner first second → inner second third →
    inner first third
  depth : ∀ before after, inner before after → after.levels.length = before.levels.length
  /-- Counters, remembered joins, marks, the style of parameters and advisories. -/
  idle : ∀ (context : Context) nextUid nextAlias implicitJoins narrowings style? advisories,
    outer context { context with
      nextUid, nextAlias, implicitJoins, narrowings, style?, advisories }
  register : ∀ (context : Context) (element : FromElement), element.Admitted schema treat →
    outer context (context.register element)
  /-- An element with a made-up variable is bound. -/
  bind : ∀ (context : Context) (element : FromElement) (trail : Trail),
    element.binding.generated = true → context.trail.bind element = .ok trail →
    outer context { context with trail := trail }
  /-- An implicit join is put at the end of the space that its source stands in. -/
  joinImplicitly : ∀ (context : Context) (place : Place) root joins (binding : Binding)
    (source : FromElement) (join : AttributeJoin), join.implicit = true →
    binding.generated = true → context.levels = place.fill (.rooted root joins) →
    (OpenSpace.rooted root joins).contains source.unwrapped.uid = true →
    outer context { context with
      levels := place.fill
        (.rooted root (joins ++ [.mk (.attributeJoin binding source join) none])) }
  resolve : ∀ (before after : Context) (resolver : Resolver),
    outer (before.pushResolver resolver) after → outer before after.popResolver
  nest : ∀ (before after : Context), inner before.openLevel after →
    outer before after.leaveLevel
  openSpace : ∀ (context : Context) id levels, context.levels.openSpace = .ok (id, levels) →
    inner context { context with levels := levels }
  /-- Elements of the innermost from clause are bound under any variable. -/
  declare : ∀ (context : Context) (element : FromElement) (trail : Trail),
    context.trail.bind element = .ok trail → inner context { context with trail := trail }
  /-- The spaces of the innermost from clause may be filled in any way. -/
  fill : ∀ (context : Context) (place : Place) (space filled : OpenSpace),
    context.levels = place.fill space → place.above = [] →
    inner context { context with levels := place.fill filled }
  select : ∀ (context : Context) (result : ResultVariable),
    inner context { context with trail := .selection result :: context.trail }

/-- A relation that also respects the binding of result variables. -/
structure Selecting (outer selecting : Context → Context → Prop) : Prop where
  within : ∀ before after, outer before after → selecting before after
  trans : ∀ first second third, selecting first second → selecting second third →
    selecting first third
  select : ∀ (context : Context) (result : ResultVariable),
    selecting context { context with trail := .selection result :: context.trail }

/-- A relation that holds across a level that was left, whatever was done on it. -/
structure Leaving (inner left : Context → Context → Prop) : Prop where
  refl : ∀ context, left context context
  trans : ∀ first second third, left first second → left second third → left first third
  nest : ∀ before after, inner before.openLevel after → left before after.leaveLevel

theorem Motion.leaving {schema : Schema} {treat : DottedName → Prop}
    {outer inner : Context → Context → Prop} (motion : Motion schema treat outer inner) :
    Leaving inner outer :=
  ⟨motion.refl, motion.trans, motion.nest⟩

theorem Motion.selecting {schema : Schema} {treat : DottedName → Prop}
    {outer inner : Context → Context → Prop} (motion : Motion schema treat outer inner) :
    Selecting outer inner :=
  ⟨motion.within, motion.transWithin, motion.select⟩

namespace Step

/-- The relation holds across the step, whatever its outcome, and a lenient schema finds no
breach. A step that is free does not ask which language is in force. -/
structure Moves {α : Type} (schema : Schema) (free : Prop) (R : Context → Context → Prop)
    (before : Context) (step : Step α) : Prop where
  state : R before (step.run' schema before).2
  lenient : schema.strict = false → ∀ breach, (step.run' schema before).1 ≠ .error (.strict breach)
  same : free → ∀ strict, step.run' (schema.withStrict strict) before = step.run' schema before

/-- A step that leaves the state as it was. -/
abbrev Stays {α : Type} (schema : Schema) (free : Prop) (before : Context) (step : Step α) : Prop :=
  Moves schema free Eq before step

variable {α β : Type} {schema : Schema} {free : Prop} {before : Context}
  {R S : Context → Context → Prop}

/-! ## Steps put together -/

theorem Moves.mono {step : Step α} (h : Moves schema free R before step)
    (himp : ∀ first second, R first second → S first second) : Moves schema free S before step :=
  ⟨himp _ _ h.state, h.lenient, h.same⟩

/-- A step that leaves the state respects every reflexive relation. -/
theorem Moves.of_stays {step : Step α} (hrefl : ∀ context, R context context)
    (h : Stays schema free before step) : Moves schema free R before step :=
  h.mono fun first _ hsame => hsame ▸ hrefl first

/-- The relation holds where the step ends. -/
theorem Moves.ends {step : Step α} (h : Moves schema free R before step) :
    Ends schema before step fun _ after => R before after := by
  intro value after hrun
  have hstate := h.state
  rw [hrun] at hstate
  exact hstate

/-- Two steps after each other, each under a relation of its own. -/
theorem moves_seq {P : Context → Context → Prop} {first : Step α} {second : α → Step β}
    (hfails : ∀ after, P before after → R before after)
    (hends : ∀ between after, P before between → S between after → R before after)
    (hfirst : Moves schema free P before first)
    (hsecond : ∀ value between, first.run' schema before = (.ok value, between) →
      Moves schema free S between (second value)) :
    Moves schema free R before (first >>= second) := by
  obtain ⟨hstate, hlenient, hsame⟩ := hfirst
  cases hrun : first.run' schema before with
  | mk outcome between =>
    rw [hrun] at hstate hlenient hsame
    have hboth : (first >>= second).run' schema before = _ := run_bind first second
    rw [hrun] at hboth
    cases outcome with
    | error fault =>
      refine ⟨?_, fun hstrict breach => ?_, fun hfree strict => ?_⟩
      · rw [hboth]
        exact hfails between hstate
      · rw [hboth]
        intro hfault
        cases hfault
        exact hlenient hstrict breach rfl
      · rw [hboth, run_bind, hsame hfree strict]
    | ok value =>
      obtain ⟨hstate', hlenient', hsame'⟩ := hsecond value between hrun
      refine ⟨?_, fun hstrict breach => ?_, fun hfree strict => ?_⟩
      · rw [hboth]
        exact hends between _ hstate hstate'
      · rw [hboth]
        exact hlenient' hstrict breach
      · rw [hboth, run_bind, hsame hfree strict]
        exact hsame' hfree strict

theorem moves_bind (htrans : ∀ first second third, R first second → R second third →
    R first third) {first : Step α} {second : α → Step β}
    (hfirst : Moves schema free R before first)
    (hsecond : ∀ value between, first.run' schema before = (.ok value, between) →
      Moves schema free R between (second value)) : Moves schema free R before (first >>= second) :=
  moves_seq (fun _ h => h) (fun between after => htrans before between after) hfirst hsecond

/-- After a step that leaves the state, the next one starts from the same state. -/
theorem stays_then (hrefl : ∀ context, R context context) {first : Step α} {second : α → Step β}
    (hfirst : Stays schema free before first)
    (hsecond : ∀ value, first.run' schema before = (.ok value, before) →
      Moves schema free R before (second value)) :
    Moves schema free R before (first >>= second) := by
  have hsame := hfirst.state
  refine moves_seq (P := Eq) (S := R) (fun after h => h ▸ hrefl before)
    (fun between after h hlater => h ▸ hlater) hfirst fun value between hrun => ?_
  rw [hrun] at hsame
  subst hsame
  exact hsecond value hrun

theorem moves_get_bind {second : Context → Step β}
    (h : Moves schema free R before (second before)) :
    Moves schema free R before (get >>= second) :=
  ⟨h.state, h.lenient, h.same⟩

/-- What follows must not depend on the language in force. -/
theorem moves_read_bind {second : Schema → Step β}
    (h : Moves schema free R before (second schema))
    (hsame : ∀ strict, second (schema.withStrict strict) = second schema) :
    Moves schema free R before (read >>= second) := by
  refine ⟨h.state, h.lenient, fun hfree strict => ?_⟩
  change (second (schema.withStrict strict)).run' (schema.withStrict strict) before = _
  rw [hsame strict]
  exact h.same hfree strict

theorem moves_modify {change : Context → Context} (h : R before (change before)) :
    Moves schema free R before (modify change) :=
  ⟨h, fun _ _ hfault => (by cases hfault), fun _ _ => rfl⟩

section

variable (hrefl : ∀ context, R context context)
include hrefl

theorem moves_pure (value : α) : Moves schema free R before (pure value) :=
  ⟨hrefl before, fun _ _ h => (by cases h), fun _ _ => rfl⟩

theorem moves_throw {fault : Fault}
    (h : ∀ breach, fault ≠ .strict breach) :
    Moves schema free R before (throw fault : Step α) :=
  ⟨hrefl before, fun _ breach hfault => h breach (by cases hfault; rfl), fun _ _ => rfl⟩

theorem moves_throw_bind {fault : Fault} {second : α → Step β}
    (h : ∀ breach, fault ≠ .strict breach) :
    Moves schema free R before ((throw fault : Step α) >>= second) :=
  ⟨hrefl before, fun _ breach hfault => h breach (by cases hfault; rfl), fun _ _ => rfl⟩

theorem moves_ofExcept {check : Except Fault α} (h : ∀ breach, check ≠ .error (.strict breach)) :
    Moves schema free R before (ofExcept check) := by
  cases check with
  | ok value => exact moves_pure hrefl value
  | error fault => exact moves_throw hrefl fun breach hfault => h breach (by rw [hfault])

theorem moves_change {change : Context → Except Fault Context}
    (h : ∀ after, change before = .ok after → R before after)
    (hlenient : ∀ breach, change before ≠ .error (.strict breach)) :
    Moves schema free R before (Step.change change) := by
  refine moves_get_bind ?_
  cases hchange : change before with
  | error fault =>
    exact moves_throw hrefl fun breach hfault => hlenient breach (by rw [hchange, hfault])
  | ok after => exact ⟨h after hchange, fun _ _ hfault => (by cases hfault), fun _ _ => rfl⟩

/-- Only the strict language has breaches. -/
theorem moves_comply (violated : Bool) (breach : Breach) :
    Moves schema False R before (comply violated breach) := by
  have hrun : (comply violated breach).run' schema before
      = ((if violated && schema.strict then throw (.strict breach) else pure () : Step Unit).run'
        schema before) := rfl
  split at hrun
  · rename_i hstrict
    refine ⟨?_, fun hlenient => ?_, False.elim⟩
    · rw [hrun]
      exact hrefl before
    · rw [hlenient] at hstrict
      simp at hstrict
  · refine ⟨?_, fun _ _ hfault => ?_, False.elim⟩
    · rw [hrun]
      exact hrefl before
    · rw [hrun] at hfault
      cases hfault

end

/-! ## Steps that put the state back -/

theorem run_modify_bind (change : Context → Context) (second : Unit → Step β) :
    (modify change >>= second).run' schema before = (second ()).run' schema (change before) := rfl

theorem run_get_bind (second : Context → Step β) :
    (get >>= second).run' schema before = (second before).run' schema before := rfl

theorem run_attempt_bind (step : Step α) (second : Except Fault α → Step β) :
    (attempt step >>= second).run' schema before
      = (second (step.run' schema before).1).run' schema (step.run' schema before).2 := by
  rw [run_bind]
  rfl

/-- A step under a resolver has the outcome of the step, and the resolver is taken back. -/
theorem run_under (resolver : Resolver) (step : Step α) :
    (under resolver step).run' schema before
      = ((step.run' schema (before.pushResolver resolver)).1,
        (step.run' schema (before.pushResolver resolver)).2.popResolver) := by
  unfold under
  rw [run_modify_bind, run_attempt_bind, run_modify_bind]
  cases (step.run' schema (before.pushResolver resolver)).1 with
  | ok value => rfl
  | error fault => rfl

/-- A step on a level of its own fails with the step or at the end of the level, which is left in
any case. -/
theorem run_onLevel (step : Step α) :
    (onLevel step).run' schema before
      = ((step.run' schema before.openLevel).1.bind fun value =>
          (Levels.close ((step.run' schema before.openLevel).2.levels.headD [])).map fun spaces =>
            (value, spaces),
        (step.run' schema before.openLevel).2.leaveLevel) := by
  unfold onLevel
  rw [run_modify_bind, run_attempt_bind, run_get_bind, run_modify_bind]
  generalize step.run' schema before.openLevel = ran
  obtain ⟨outcome, after⟩ := ran
  cases outcome with
  | error fault => rfl
  | ok value =>
    dsimp only
    cases Levels.close (after.levels.headD []) with
    | error fault => rfl
    | ok spaces => rfl

end Step
end Interpretation
end EntityQuery

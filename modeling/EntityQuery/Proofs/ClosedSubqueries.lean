import EntityQuery.Proofs.EmbeddedQueries
import EntityQuery.Proofs.NestedStarts
import EntityQuery.Proofs.PlainReading
import EntityQuery.Proofs.WellTyped

/-!
# Closed subqueries

A query that mentions nothing of the query around means the same nested as alone. Wherever a
statement begins it as a nested query, its meaning is the one that it has as a statement, under
numbers and made-up variables that were not drawn yet, and nothing is joined around it.

Names that look like made-up variables are left out: such a name may stand for an element of the
query, and for another one, or for none, where made-up variables were drawn before.

* `closed_subquery_embedded`: the meaning of a closed subquery.
* `closed_subquery_generated`: a name that looks like a made-up variable has a meaning alone only.
-/

namespace EntityQuery.Interpretation

variable {schema : Schema}

/-- Before it begins, a query adds nothing to the state around it. -/
theorem Context.embedded_empty (around : Context) :
    Context.empty.embedded around around.advisories = around := by
  have hmarks : around.narrowings ++ [] = around.narrowings := List.append_nil _
  unfold embedded
  exact congrArg (fun narrowings => { around with narrowings }) hmarks

/-- The meaning of a query as a statement is that of the query. -/
theorem Step.run_select {written : Phrase.Query} {select : Resolved.Select} {after : Context} :
    (Step.statement (.select written)).run' schema .empty = (.ok (.select select), after)
      ↔ (Step.query written false).run' schema .empty = (.ok select, after) := by
  refine run_bind_ok.trans ⟨?_, fun h => ⟨select, after, h, rfl⟩⟩
  rintro ⟨value, between, hrun, hsame⟩
  cases hsame
  exact hrun

/-- Identifiers in texts are words, and these look like no made-up variables. -/
theorem plainName_of_isWord {name : String} (h : Grammar.IsWord name) : PlainName name := by
  intro number heq
  obtain ⟨first, letters, hname, hstart, -⟩ := h.form
  obtain ⟨rest, hsign⟩ := Phrase.generatedAlias_toList number
  have hpoint : (first != '.') = true := by
    refine bne_iff_ne.mpr ?_
    rintro rfl
    exact absurd hstart (by decide)
  rw [← heq, leadingPart, String.toList_ofList, hname, List.takeWhile_cons, if_pos hpoint] at hsign
  cases hsign
  exact absurd hstart (by decide)

/-- A query without polymorphic roots that has a meaning as a statement has it, under later numbers
and made-up variables, wherever a statement begins it as a nested query, if the names that it uses
stand for nothing around and none of its names looks like a made-up variable. Its elements bear the
same marks, and the levels around are left as they were. -/
theorem closed_subquery_embedded {statement : Phrase.Statement} {nested : Phrase.Query}
    {start alone : Context} {select : Resolved.Select} (hlenient : schema.strict = false)
    (hstart : Begins.statement schema nested start statement)
    (halone : (Step.statement (.select nested)).run' schema .empty = (.ok (.select select), alone))
    (hmapped : nested.MappedRoots schema)
    (hplain : ∀ occurrence ∈ nested.occurrences, PlainName occurrence.name)
    (hclosed : ∀ name, .used name ∈ nested.occurrences → start.trail.element? name = none)
    (hstyle : start.SharesStyle alone) :
    ∃ after, (Step.query nested true).run' schema start
        = (.ok (select.rebuilt false (FromElement.embedded start)), after)
      ∧ (∀ uid, after.narrowings.of (start.nextUid + uid) = alone.narrowings.of uid)
      ∧ after.levels = start.levels := by
  have hsound : start.Sound schema False := Begins.statement_sound hstart
  have hadmits : ∀ occurrence ∈ nested.occurrences, start.Admits occurrence := by
    intro occurrence hoccurrence
    cases occurrence with
    | declared name => exact hplain (.declared name) hoccurrence
    | used name =>
      have hname : PlainName name := hplain (.used name) hoccurrence
      exact Context.Ignores.mk hname (hclosed name hoccurrence)
  have hembeds : Step.EmbedsAt schema start
      (fun select select' => select' = select.rebuilt false (FromElement.embedded start)) .empty
      (Step.query nested false) (Step.query nested true) :=
    Step.query_embeds hlenient hsound.numbered nested false Context.Inside.outermost
      (fun _ => hmapped) hadmits
  obtain ⟨hprogresses, _, rfl, hruns⟩ := hembeds select alone (Step.run_select.mp halone)
  obtain ⟨advisories, hrun⟩ := hruns hstyle start.advisories
  rw [Context.embedded_empty] at hrun
  refine ⟨alone.embedded start advisories, hrun,
    Context.narrowings_embedded hsound.numbered alone, ?_⟩
  have hnone : alone.levels = [] := List.length_eq_zero_iff.mp hprogresses.levels
  change alone.levels.embedded start = start.levels
  rw [hnone]
  rfl

/-! ## Subqueries about shelves -/

/-- Whether a step ends can be seen from its outcome. -/
theorem run_of_isOk {α : Type} {step : Step α} {before : Context}
    (hok : (step.run' schema before).1.isOk = true) :
    ∃ value, step.run' schema before = (.ok value, (step.run' schema before).2) := by
  cases hrun : step.run' schema before with
  | mk outcome after =>
    rw [hrun] at hok
    cases outcome with
    | error fault => cases hok
    | ok value => exact ⟨value, rfl⟩

theorem leads_of_isOk {α : Type} {first : Step α} {later : α → Context → Prop} {before : Context}
    (hok : (first.run' schema before).1.isOk = true)
    (hlater : ∀ value, later value (first.run' schema before).2) :
    Leads schema first later before := by
  obtain ⟨value, hrun⟩ := run_of_isOk hok
  exact ⟨value, _, hrun, hlater value⟩

theorem select_of_isOk {written : Phrase.Query}
    (hok : ((Step.query written false).run' schema .empty).1.isOk = true) :
    ∃ select, (Step.statement (.select written)).run' schema .empty
      = (.ok (.select select), ((Step.query written false).run' schema .empty).2) := by
  obtain ⟨select, hrun⟩ := run_of_isOk hok
  exact ⟨select, Step.run_select.mpr hrun⟩

/-- The labels of the marked shelves, `select label from Shelf where label = :mark`. -/
def markedLabels : Phrase.Query :=
  .mk (some (.mk false [.mk (.expression (.path ⟨["label"]⟩)) none]))
    [.mk ⟨⟨["Shelf"]⟩, none⟩ []]
    (some (.comparison .equal (.path ⟨["label"]⟩) (.parameter (.named "mark")))) none none none

/-- A condition on the shelves that are deleted, `t.label = :mark`. -/
def markedShelf : Phrase.Predicate :=
  .comparison .equal (.path ⟨["t", "label"]⟩) (.parameter (.named "mark"))

/-- The shelves that meet two conditions are deleted. -/
def deletion (first second : Phrase.Predicate) : Phrase.Statement :=
  .delete ⟨⟨["Shelf"]⟩, some "t"⟩ (some (.and first second))

/-- The state in which the first condition is begun. -/
def beforeFirst : Context :=
  ((Step.bulkTarget ⟨⟨["Shelf"]⟩, some "t"⟩).run' shelving.schema
    Context.empty.openLevel).2.pushResolver .bulk

/-- The state in which the second condition is begun. -/
def afterFirst (first : Phrase.Predicate) : Context :=
  ((Step.predicate first).run' shelving.schema beforeFirst).2

/-- A subquery that is the second condition is begun in that state. -/
theorem deletion_begins {first : Phrase.Predicate} {nested : Phrase.Query}
    (hok : ((Step.predicate first).run' shelving.schema beforeFirst).1.isOk = true) :
    Begins.statement shelving.schema nested (afterFirst first)
      (deletion first (.existence (.subquery nested) false)) := by
  refine leads_of_isOk (by decide +kernel) fun _ => .inr (leads_of_isOk hok fun _ => ?_)
  cases nested
  exact .inl ⟨rfl, rfl, rfl⟩

theorem shelves_mapped {select : Option Phrase.SelectClause} {condition : Option Phrase.Predicate} :
    (Phrase.Query.mk select [.mk ⟨⟨["Shelf"]⟩, none⟩ []] condition none none none).MappedRoots
      shelving.schema := by
  intro space hspace
  cases List.mem_singleton.mp hspace
  have hmapped : (shelving.schema.entity? "Shelf").all (fun entity => !entity.isPolymorphic)
      = true := by decide +kernel
  intro entity hentity
  have htext : (⟨["Shelf"]⟩ : DottedName).text = "Shelf" := by decide +kernel
  rw [htext] at hentity
  rw [hentity] at hmapped
  simpa using hmapped

/-- The shelves around have labels as well, and the parameter is used there before. -/
theorem closed_subquery_embedded_shelving :
    let start := afterFirst markedShelf
    Begins.statement shelving.schema markedLabels start
        (deletion markedShelf (.existence (.subquery markedLabels) false))
      ∧ ∃ select alone after, (Step.statement (.select markedLabels)).run' shelving.schema .empty
          = (.ok (.select select), alone)
        ∧ (Step.query markedLabels true).run' shelving.schema start
          = (.ok (select.rebuilt false (FromElement.embedded start)), after)
        ∧ (∀ uid, after.narrowings.of (start.nextUid + uid) = alone.narrowings.of uid)
        ∧ after.levels = start.levels := by
  have hok : ((Step.query markedLabels false).run' shelving.schema .empty).1.isOk = true := by
    decide +kernel
  have hbegins : Begins.statement shelving.schema markedLabels (afterFirst markedShelf)
      (deletion markedShelf (.existence (.subquery markedLabels) false)) :=
    deletion_begins (by decide +kernel)
  have hnames : ∀ occurrence ∈ markedLabels.occurrences, occurrence = .used "label" := by decide
  have hword : Grammar.takeWord? "label".toList = some ("label", []) := by decide +kernel
  have hfree : (afterFirst markedShelf).trail.element? "label" = none := by decide +kernel
  have hstyle : ((Step.query markedLabels false).run' shelving.schema .empty).2.style?
      = (afterFirst markedShelf).style? := by decide +kernel
  obtain ⟨select, halone⟩ := select_of_isOk hok
  have hlenient : shelving.schema.strict = false := by decide +kernel
  obtain ⟨after, hrun, hmarks, hlevels⟩ := closed_subquery_embedded hlenient hbegins halone
    shelves_mapped
    (fun occurrence hoccurrence => by
      rw [hnames occurrence hoccurrence]
      exact plainName_of_isWord hword)
    (fun name hname => by
      cases hnames _ hname
      exact hfree)
    (fun style hused fixed hfixed => by
      rw [hstyle] at hused
      exact Option.mem_unique hfixed hused)
  exact ⟨hbegins, select, _, after, halone, hrun, hmarks, hlevels⟩

/-! ## Made-up variables -/

/-- A query that mentions its root by a made-up variable, `select <gen:0>.label from Shelf`. -/
def unnamedLabels : Phrase.Query :=
  .mk (some (.mk false [.mk (.expression (.path ⟨["<gen:0>", "label"]⟩)) none]))
    [.mk ⟨⟨["Shelf"]⟩, none⟩ []] none none none none

/-- After another query without variables, the root is no longer the first that is made up. -/
theorem closed_subquery_generated :
    let start := afterFirst (.existence (.subquery markedLabels) false)
    let alone := ((Step.query unnamedLabels false).run' shelving.schema .empty).2
    Begins.statement shelving.schema unnamedLabels start
        (deletion (.existence (.subquery markedLabels) false)
          (.existence (.subquery unnamedLabels) false))
      ∧ (∃ select, (Step.statement (.select unnamedLabels)).run' shelving.schema .empty
          = (.ok (.select select), alone))
      ∧ unnamedLabels.MappedRoots shelving.schema
      ∧ (∀ name, .used name ∈ unnamedLabels.occurrences → start.trail.element? name = none)
      ∧ start.SharesStyle alone
      ∧ ((Step.query unnamedLabels true).run' shelving.schema start).1.isOk = false := by
  have hok : ((Step.query unnamedLabels false).run' shelving.schema .empty).1.isOk = true := by
    decide +kernel
  have hnames : ∀ occurrence ∈ unnamedLabels.occurrences, occurrence = .used "<gen:0>" := by
    decide
  have hstyle : ((Step.query unnamedLabels false).run' shelving.schema .empty).2.style? = none := by
    decide +kernel
  refine ⟨deletion_begins (by decide +kernel), select_of_isOk hok, shelves_mapped, ?_, ?_, ?_⟩
  · intro name hname
    cases hnames _ hname
    decide +kernel
  · intro style halone
    rw [hstyle] at halone
    cases halone
  · decide +kernel

end EntityQuery.Interpretation

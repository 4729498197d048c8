import EntityQuery.Proofs.FailedQueries
import EntityQuery.Proofs.WellTyped

/-!
# Why statements fail

A bulk statement opens a single space, which gets the target as its root, and joins nothing to it
before its clauses are read. Like queries, statements of any shape fail for what is written in them.

* `Step.statement_faults`: the faults of a statement are blamed on its parts.
* `interpretPhrase_blamed`: the faults of a phrase that is read on its own.
* `Fault.report_ne`: the report of a fault tells whether it is an internal one.
* `interpretPhrase_regular`: no phrase meets an internal fault.
-/

namespace EntityQuery.Interpretation

namespace Step

open Phrase (Part)

variable {schema : Schema} {before : Context} {parts : List Part}

theorem stateField_faults (hsound : before.Sound schema False) (field : DottedName) :
    Faults parts schema before (stateField field) := by
  refine fails_then (path_faults hsound field) fun value _ => ?_
  split
  · exact fails_pure
  · exact fails_throw (Fault.blamed rfl)

/-- A resolver does not matter for why a step fails. -/
theorem under_faults {α : Type} (hsound : before.Sound schema False) {resolver : Resolver}
    {step : Step α}
    (h : ∀ context, context.Sound schema False → Faults parts schema context step) :
    Faults parts schema before (under resolver step) :=
  fails_under (h _ (hsound.idle _ before.style? before.advisories).sound)

theorem assignment_faults {written : Phrase.Assignment} (h : written.value.parts ⊆ parts)
    (hsound : before.Sound schema False) : Faults parts schema before (assignment written) :=
  under_faults hsound fun _ hcontext =>
    faults_bind (stateField_builds hcontext _) (stateField_faults hcontext _) fun _ _ hbetween =>
      fails_then (expression_faults written.value h hbetween) fun _ => fails_pure

theorem bulkRestriction_faults {condition : Option Phrase.Predicate}
    (h : Phrase.restrictionParts condition ⊆ parts) (hsound : before.Sound schema False) :
    Faults parts schema before (bulkRestriction condition) := by
  cases condition with
  | none => exact fails_pure
  | some written =>
    exact fails_then (under_faults hsound fun _ hcontext => predicate_faults written h hcontext)
      fun _ => fails_pure

theorem updateClauses_fault {assignments : List Phrase.Assignment}
    {condition : Option Phrase.Predicate}
    (hassignments : ∀ assignment ∈ assignments, assignment.value.parts ⊆ parts)
    (hcondition : Phrase.restrictionParts condition ⊆ parts) (hsound : before.Sound schema False) :
    Faults parts schema before (do
      let assignments ← assignments.mapM assignment
      let condition ← bulkRestriction condition
      return (assignments, condition)) := by
  have hsounds : ∀ (written : Phrase.Assignment) (context : Context), context.Sound schema False →
      Ends schema context (assignment written) fun _ after => after.Sound schema False :=
    fun written context hcontext =>
      ends_mono (assignment_builds False.elim hcontext) fun _ _ h => h.1.sound
  refine fails_bind (ends_mapM (fun _ context => context.Sound schema False) hsound
    fun written _ _ context hcontext => hsounds written context hcontext)
    (fails_mapM _ hsound fun written hwritten context hcontext =>
      ⟨hsounds written context hcontext,
        assignment_faults (hassignments written hwritten) hcontext⟩) fun _ _ hbetween => ?_
  exact fails_then (bulkRestriction_faults hcondition hbetween) fun _ => fails_pure

theorem insertFields_fault (parts : List Part) (fields : List DottedName) (element : FromElement)
    (hsound : before.Sound schema False) :
    Faults parts schema before
      (under .bulk (fields.mapM fun field => stateField ⟨element.aliasName :: field.parts⟩)) :=
  under_faults hsound fun _ hcontext =>
    fails_mapM (fun context => context.Sound schema False) hcontext fun _ _ _ hbetween =>
      ⟨ends_mono (stateField_builds hbetween _) fun _ _ h => h.1.sound,
        stateField_faults hbetween _⟩

/-! ## The target -/

/-- The target is the root of the only space of its level. -/
theorem bulkTarget_ends (hsound : before.Sound schema False) (written : Phrase.Root) :
    Ends schema before.openLevel (bulkTarget written) fun _ after =>
      after.Sound schema False
        ∧ ∃ target below, after.levels.roots = [target].map some :: below := by
  refine ends_bind (openSpace_sound hsound.openLevel) ?_
  rintro id first ⟨hfirst, opened, below, hlevels, hopened, rfl⟩
  cases hlevels
  refine ends_bind (openedRoot_ends hopened hfirst written) ?_
  rintro element second ⟨hsecond, hfilled⟩
  dsimp only
  split
  · exact ends_throw_bind _ _
  · exact ends_pure ⟨hsecond, element, before.levels.roots, by rw [hfilled]; rfl⟩

theorem bulkTarget_faults (hsound : before.Sound schema False) (written : Phrase.Root) :
    Faults parts schema before.openLevel (bulkTarget written) := by
  refine fails_bind (openSpace_sound hsound.openLevel)
    (openSpace_faults (Levels.rooted_empty before.levels)) ?_
  rintro id first ⟨-, opened, below, -, hopened, rfl⟩
  refine fails_then (openedRoot_faults hopened written) fun element _ => ?_
  dsimp only
  split
  · exact fails_throw_bind (Fault.blamed rfl)
  · exact fails_pure

/-- A level with the target of a bulk statement has one space when it is left. -/
theorem bulk_faults {α : Type} (written : Phrase.Root) {clauses : FromElement → Step α}
    {bound : α → List FromElement} {meets : Resolved.Rules → List FromElement → α → Prop}
    (hsound : before.Sound schema False)
    (hbuilds : ∀ element {context : Context}, context.Sound schema False →
      Builds bound meets schema False context (clauses element))
    (hfaults : ∀ element {context : Context}, context.Sound schema False →
      Faults parts schema context (clauses element)) :
    Ends schema before (onLevel do clauses (← bulkTarget written))
        (fun value after => value.2.length = 1 ∧ after.Sound schema False)
      ∧ Faults parts schema before (onLevel do clauses (← bulkTarget written)) := by
  have hlevel : Ends schema before.openLevel (do clauses (← bulkTarget written))
        (fun _ after => ∃ target below, after.levels.roots = [target].map some :: below)
      ∧ Faults parts schema before.openLevel (do clauses (← bulkTarget written)) := by
    refine ends_fails_bind (bulkTarget_ends hsound written) (bulkTarget_faults hsound written) ?_
    rintro element between ⟨hbetween, target, below, hroots⟩
    refine ⟨ends_mono (hbuilds element hbetween) ?_, hfaults element hbetween⟩
    rintro value after ⟨hadvances, -⟩
    exact ⟨target, below, hadvances.roots.trans hroots⟩
  have hplain : False → Phrase.PlainVariable written.alias? := False.elim
  have hsounds := bulk_ends hplain hsound hbuilds
  constructor
  · intro value after hrun
    refine ⟨?_, (hsounds value after hrun).1.sound⟩
    revert value after
    refine ends_onLevel (ends_mono hlevel.1 ?_)
    rintro value after ⟨target, below, hroots⟩ spaces hclose
    obtain ⟨finished, hfinished, hlength⟩ := Levels.Rooted.close hroots
    rw [hclose] at hfinished
    cases hfinished
    exact hlength
  · refine level_faults ⟨ends_mono hlevel.1 ?_, hlevel.2⟩
    rintro _ after ⟨target, below, hroots⟩
    exact ⟨[target], below, hroots⟩

/-- There is one space, so that only joins in it are a fault. -/
theorem singleSpace_faults {spaces : List Resolved.Space} (h : spaces.length = 1) :
    Faults parts schema before (ofExcept (singleSpace spaces)) := by
  refine fails_ofExcept fun fault hfault => ?_
  obtain ⟨space, rfl⟩ := List.length_eq_one_iff.mp h
  simp only [singleSpace] at hfault
  split at hfault
  · cases hfault
  · cases hfault
    exact Fault.blamed rfl

/-! ## Statements -/

theorem statement_faults (hsound : before.Sound schema False) (written : Phrase.Statement)
    (h : written.parts ⊆ parts) : Faults parts schema before (statement written) := by
  cases written with
  | select query => exact fails_then (query_faults query false h hsound) fun _ => fails_pure
  | update target assignments condition =>
    obtain ⟨hvalues, hcondition⟩ := List.append_subset.mp h
    have hassignments : ∀ assignment ∈ assignments, assignment.value.parts ⊆ parts :=
      fun assignment hmem part hpart => hvalues (List.mem_flatMap.mpr ⟨assignment, hmem, hpart⟩)
    obtain ⟨hends, hfails⟩ := bulk_faults target hsound
      (fun _ _ hcontext => updateClauses_build False.elim False.elim hcontext)
      fun _ _ hcontext => updateClauses_fault hassignments hcondition hcontext
    refine fails_bind hends hfails ?_
    rintro ⟨⟨values, restriction⟩, spaces⟩ after ⟨hlength, -⟩
    exact fails_then (singleSpace_faults hlength) fun _ => fails_pure
  | delete target condition =>
    obtain ⟨hends, hfails⟩ := bulk_faults target hsound
      (fun _ _ hcontext => bulkRestriction_builds False.elim hcontext)
      fun _ _ hcontext => bulkRestriction_faults h hcontext
    refine fails_bind hends hfails ?_
    rintro ⟨restriction, spaces⟩ after ⟨hlength, -⟩
    exact fails_then (singleSpace_faults hlength) fun _ => fails_pure
  | insert target fields query =>
    obtain ⟨hends, hfails⟩ := bulk_faults ⟨target, none⟩ hsound
      (insertFields_build fields)
      fun element _ hcontext => insertFields_fault parts fields element hcontext
    refine fails_bind hends hfails ?_
    rintro ⟨values, spaces⟩ between ⟨hlength, hbetween⟩
    refine fails_then (query_faults query false h hbetween) fun select _ => ?_
    exact fails_then (singleSpace_faults hlength) fun _ => fails_pure

end Step

variable {schema : Schema}

/-- What a phrase fails for is no internal fault, and what is said of shapes is true of a part. -/
theorem interpretPhrase_blamed {phrase : Phrase.Statement} {fault : Fault}
    (h : interpretPhrase phrase schema = .error fault) : fault.BlamedOn phrase.parts := by
  unfold interpretPhrase at h
  split at h
  · cases h
  · rename_i failed context hrun
    cases h
    exact Step.statement_faults (.empty schema False) phrase (List.Subset.refl _) _ _ hrun

/-! ## What is reported -/

namespace Fault

open Report (QueryError Code)

section

variable {code other : Code} {front rest text : String}

/-- A text that begins with something else is another one. -/
theorem append_ne (h : ¬ front.toList <+: text.toList) : front ++ rest ≠ text := by
  rintro rfl
  exact h (by rw [String.toList_append]; exact List.prefix_append _ _)

theorem not_prefix_append (h : ¬ front.toList <+: text.toList)
    (h' : ¬ text.toList <+: front.toList) : ¬ front.toList <+: (text ++ rest).toList := by
  intro hfront
  rw [String.toList_append] at hfront
  rcases List.prefix_or_prefix_of_prefix hfront (List.prefix_append _ _) with hprefix | hprefix
  · exact h hprefix
  · exact h' hprefix

theorem meaning_ne (h : ¬ front.toList <+: text.toList) :
    QueryError.meaning code (front ++ rest) ≠ .meaning other text :=
  fun heq => append_ne h (QueryError.meaning.inj heq).2

theorem shape_ne (h : ¬ front.toList <+: text.toList) :
    QueryError.shape code (front ++ rest) ≠ .shape other text :=
  fun heq => append_ne h (QueryError.shape.inj heq).2

end

variable {fault internal : Fault}

/-- Only faults of the library itself concern the spaces under construction. -/
theorem code_ne_invalidSpace (h : fault.isInternal = false) :
    fault.report.code ≠ .invalidSpace := by
  cases fault with
  | literal problem => cases problem <;> nofun
  | strict breach => cases breach <;> nofun
  | outsideClauses element => cases h
  | rootPresent existing element => cases h
  | joinWithoutRoot element => cases h
  | spaceWithoutRoot => cases h
  | noOpenClause => cases h
  | unknownSpace => cases h
  | _ => nofun

/-- Faults about joins share the code of a bulk statement without a single target, not its text. -/
theorem report_ne_bulkTargetCount (h : fault.isInternal = false) :
    fault.report ≠ bulkTargetCount.report := by
  cases fault with
  | bulkTargetCount => cases h
  | literal problem => cases problem <;> nofun
  | strict breach => cases breach <;> nofun
  | emptyJoinPath | implicitSelectWithoutRoot => decide
  | basicDereferenced _ | foreignSpace _ | joinInBulk _ | joinFromPolymorphic _ _ | basicJoin _
  | polymorphicJoin _ _ | joinPathWithoutVariable _ | nestedPolymorphism _
  | polymorphicBulkTarget _ | joinsInBulkTarget _ | notStateField _ _ =>
    simp only [report, toString, String.append_assoc]
    exact meaning_ne (by decide)
  | _ => nofun

/-- A fault about an unexpected shape that is no internal one is about a missing subquery. -/
theorem subquery_of_report {message : String} (h : fault.isInternal = false)
    (hreport : fault.report = .shape .unexpectedShape message) :
    fault = existenceOperand ∨ fault = membershipOperand := by
  cases fault with
  | existenceOperand => exact .inl rfl
  | membershipOperand => exact .inr rfl
  | implicitJoinFetched path => cases h
  | implicitJoinAliased path => cases h
  | literal problem => cases problem <;> cases hreport
  | _ => cases hreport

/-- What is reported tells internal faults from the others. -/
theorem report_ne (h : fault.isInternal = false) (hinternal : internal.isInternal = true) :
    fault.report ≠ internal.report := by
  intro hreport
  have hcode : internal.report.code ≠ .invalidSpace := by
    rw [← hreport]
    exact code_ne_invalidSpace h
  cases internal with
  | bulkTargetCount => exact report_ne_bulkTargetCount h hreport
  | implicitJoinFetched path | implicitJoinAliased path =>
    rcases subquery_of_report h hreport with rfl | rfl
    all_goals
      revert hreport
      simp only [report, toString, String.append_assoc]
      exact (shape_ne (by decide)).symm
  | outsideClauses _ | rootPresent _ _ | joinWithoutRoot _ | spaceWithoutRoot | noOpenClause
  | unknownSpace => exact hcode rfl
  | _ => cases hinternal

end Fault

/-- Whatever its shape, no phrase fails because the library lost track of its spaces, asked for an
implicit join that makes no sense, or counted the targets of a bulk statement. -/
theorem interpretPhrase_regular {phrase : Phrase.Statement} {fault : Fault}
    (h : interpretPhrase phrase schema = .error fault) :
    fault.report.code ≠ .invalidSpace
      ∧ (∀ path, fault.report ≠ (Fault.implicitJoinFetched path).report
        ∧ fault.report ≠ (Fault.implicitJoinAliased path).report)
      ∧ fault.report ≠ Fault.bulkTargetCount.report := by
  have hregular := (interpretPhrase_blamed h).regular
  exact ⟨Fault.code_ne_invalidSpace hregular,
    fun path => ⟨Fault.report_ne hregular rfl, Fault.report_ne hregular rfl⟩,
    Fault.report_ne hregular rfl⟩

/-- No text is read as this: an addition of nothing is tested. -/
def operandless : Phrase.Statement :=
  .delete ⟨⟨["Shelf"]⟩, some "s"⟩ (some (.isNull (.arithmetic .add []) false))

theorem interpretPhrase_regular_operandless :
    interpretPhrase operandless shelving.schema = .error (.operandCount .arithmetic 0)
      ∧ (Fault.operandCount .arithmetic 0).report.code ≠ .invalidSpace :=
  have hfails :
      interpretPhrase operandless shelving.schema = .error (.operandCount .arithmetic 0) := rfl
  ⟨hfails, (interpretPhrase_regular hfails).1⟩

end EntityQuery.Interpretation

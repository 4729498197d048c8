import EntityQuery.Interpretation.Statement
import EntityQuery.Proofs.BuiltQueries
import Mathlib.Data.List.Nodup

/-!
# Statements that are built

A statement is built from the empty state. What it mentions meets the rules, and every element is
bound in one place.

* `Step.statement_builds`: the meaning of a statement meets the rules.
* `interpretPhrase_built`: the same of a meaning that is found.
* `interpret_isOk`: from a text that has a meaning to its phrase.
-/

namespace EntityQuery.Interpretation

open Resolved

theorem Context.Sound.empty (schema : Schema) (clean : Prop) :
    Context.empty.Sound schema clean where
  closed := fun _ h => by cases h
  fresh := fun _ h => by cases h
  unique := fun _ h => by cases h
  ordered := fun _ h => by cases h
  typed := fun _ h => by cases h
  marked := fun _ h => by cases h
  named := fun _ _ h => by cases h
  bound := fun _ h => by cases h
  fit := trivial
  placed := List.nodup_nil
  framed := trivial
  distinct := fun _ _ h => by cases h
  known := fun _ h => by cases h
  joined := fun _ h => by cases h
  secluded := trivial
  recalls := .empty
  madeUp := fun _ h => by cases h
  trailing := fun _ h => by cases h

namespace Step

variable {schema : Schema} {clean : Prop} {before : Context}

/-! ## Clauses of bulk statements -/

theorem mapM_builds {α β : Type} {items : List β} {visit : β → Step α}
    {bound : α → List FromElement} {meets : Rules → List FromElement → α → Prop}
    (hsound : before.Sound schema clean) (hkeeps : Keeps meets)
    (hvisit : ∀ item ∈ items, ∀ {context : Context}, context.Sound schema clean →
      Builds bound meets schema clean context (visit item)) :
    Builds (fun values : List α => values.flatMap bound)
      (fun rules scope values => ∀ value ∈ values, meets rules scope value) schema clean before
      (items.mapM visit) := by
  refine ends_mapM (fun done context => before.Advances schema clean (done.flatMap bound) context
    ∧ ∀ value ∈ done, meets (context.rules schema clean) context.scope value)
    ⟨.refl hsound, fun _ h => by cases h⟩ ?_
  rintro item hitem done context ⟨hadvances, hdone⟩
  refine ends_mono (hvisit item hitem hadvances.sound) ?_
  rintro value after ⟨hlater, hvalue⟩
  refine ⟨?_, fun other hother => ?_⟩
  · have hboth := hadvances.trans hlater
    simpa using hboth
  · rcases List.mem_append.mp hother with hold | hnew
    · exact hkeeps hlater.rules hlater.scope (hdone other hold)
    · rw [List.mem_singleton.mp hnew]
      exact hvalue

theorem stateField_builds (hsound : before.Sound schema clean) (field : DottedName) :
    Builds AttributeReference.boundElements AttributeReference.Holds schema clean before
      (stateField field) := by
  refine ends_bind (path_builds hsound field) ?_
  rintro value after ⟨hadvances, hvalue⟩
  split
  · exact ends_pure ⟨hadvances, hvalue.2⟩
  · exact ends_throw _

theorem assignment_builds {written : Phrase.Assignment} (hplain : clean → written.value.Plain)
    (hsound : before.Sound schema clean) :
    Builds Assignment.boundElements Assignment.Holds schema clean before (assignment written) := by
  refine under_ends hsound fun context hcontext => ?_
  exact two_build (stateField_builds hcontext _) (expression_builds written.value hplain)
    (fun himp hsub h => AttributeReference.Holds.mono himp hsub h) (fun _ _ => rfl)
    fun _ _ htarget hvalue => ⟨htarget, hvalue⟩

theorem bulkRestriction_builds {condition : Option Phrase.Predicate}
    (hplain : clean → Phrase.restrictionPlain condition) (hsound : before.Sound schema clean) :
    Builds restrictionBound restrictionHolds schema clean before (bulkRestriction condition) := by
  cases condition with
  | none => exact ends_pure ⟨.refl hsound, trivial⟩
  | some written =>
    refine one_builds (under_ends hsound fun context hcontext => ?_) (fun _ => rfl) fun _ h => h
    exact predicate_builds written hplain hcontext

/-- The target of a bulk statement fills a new space. -/
theorem bulkTarget_extends {written : Phrase.Root}
    (hplain : clean → Phrase.PlainVariable written.alias?) (hsound : before.Sound schema clean) :
    Ends schema before (bulkTarget written) fun _ after =>
      before.Extends schema clean [] after := by
  refine ends_bind (ends_openSpace (Q := fun id first =>
    before.Extends schema clean [] first ∧ id.level + 1 = first.levels.length) ?_) ?_
  · intro id levels hopen
    obtain ⟨hextends, spaces, below, -, rfl, rfl⟩ := hsound.opensSpace hopen
    exact ⟨hextends, rfl⟩
  rintro id first ⟨hfirst, hid⟩
  refine ends_bind (root_ends hfirst.sound hid hplain) ?_
  rintro element second ⟨hsecond, -⟩
  dsimp only
  split
  · exact ends_throw_bind _ _
  · exact ends_pure (hfirst.trans hsecond)

/-- A level with the target of a bulk statement and the clauses that refer to it. -/
theorem bulk_ends {α : Type} {written : Phrase.Root} {clauses : FromElement → Step α}
    {bound : α → List FromElement} {meets : Rules → List FromElement → α → Prop}
    (hplain : clean → Phrase.PlainVariable written.alias?) (hsound : before.Sound schema clean)
    (hclauses : ∀ element {context : Context}, context.Sound schema clean →
      Builds bound meets schema clean context (clauses element)) :
    Ends schema before (onLevel do clauses (← bulkTarget written)) fun value after =>
      before.Advances schema clean (spacesBound value.2 ++ bound value.1) after
        ∧ spacesHold (after.rules schema clean) (spaceElements value.2 ++ after.scope) value.2
        ∧ meets (after.rules schema clean) (spaceElements value.2 ++ after.scope) value.1 := by
  refine ends_onLevel (ends_bind (bulkTarget_extends hplain hsound.openLevel) ?_)
  intro element first hfirst
  refine ends_mono (hclauses element hfirst.sound) ?_
  rintro value second ⟨hsecond, hvalue⟩ spaces hclose
  obtain ⟨hadvances, hscope, hspaces, -⟩ :=
    (hfirst.trans hsecond.toExtends).leaveLevel hsound hclose
  rw [hscope] at hspaces hvalue
  exact ⟨hadvances, hspaces, hvalue⟩

theorem singleSpace_ok {spaces : List Space} {space : Space} (h : singleSpace spaces = .ok space) :
    spaces = [space] ∧ space.joins = [] := by
  unfold singleSpace at h
  split at h
  · split at h
    · rename_i hempty
      cases h
      exact ⟨rfl, List.isEmpty_iff.mp hempty⟩
    · cases h
  · cases h

end Step

/-! ## Statements -/

/-- What is known of a statement that was built: the elements that it mentions are registered in a
sound state, and what it binds is accounted for. -/
structure BuiltStatement (schema : Schema) (clean : Prop) (statement : Statement)
    (context : Context) : Prop where
  sound : context.Sound schema clean
  holds : statement.Holds (context.rules schema clean)
  placedOnce : (statement.boundElements.map FromElement.uid).Nodup
  /-- The target of a bulk statement has no joins. -/
  bare : ∀ target, statement.target? = some target → target.joins = []

variable {schema : Schema} {clean : Prop} {after : Context}

theorem Context.Advances.levels_eq_nil {bound : List FromElement}
    (h : Context.empty.Advances schema clean bound after) : after.levels = [] := by
  have hgrow : Levels.Grow [] after.levels := h.grow
  cases hlevels : after.levels with
  | nil => rfl
  | cons spaces below =>
    rw [hlevels] at hgrow
    cases hgrow

/-- What is bound from the empty state on is bound once. -/
theorem Context.Advances.placedOnce {bound : List FromElement}
    (h : Context.empty.Advances schema clean bound after) :
    (bound.map FromElement.uid).Nodup := by
  refine List.nodup_iff_count_le_one.mpr fun uid => ?_
  have haccounts := h.accounts uid
  have hnone : (Context.empty.levels.boundElements.map FromElement.uid).count uid = 0 := rfl
  split at haccounts <;> omega

namespace Step

/-- The scope of the clauses of a bulk statement holds the elements of its target. -/
theorem bulk_scope {bound : List FromElement}
    (h : Context.empty.Advances schema clean bound after) (space : Space) :
    spaceElements [space] ++ after.scope = space.elements := by
  rw [Context.scope, h.levels_eq_nil]
  simp [spaceElements, Levels.elements]

/-- The assignments and the restriction of an update. -/
abbrev UpdateClauses := List Assignment × Option Predicate

def updateBound (clauses : UpdateClauses) : List FromElement :=
  clauses.1.flatMap Assignment.boundElements ++ restrictionBound clauses.2

def UpdateHolds (rules : Rules) (scope : List FromElement) (clauses : UpdateClauses) : Prop :=
  (∀ assignment ∈ clauses.1, assignment.Holds rules scope)
    ∧ restrictionHolds rules scope clauses.2

theorem keeps_assignment : Keeps Assignment.Holds :=
  fun himp hsub h => ⟨AttributeReference.Holds.mono himp hsub h.1,
    Expression.Holds.mono himp hsub h.2⟩

theorem updateClauses_build {assignments : List Phrase.Assignment}
    {condition : Option Phrase.Predicate}
    (hassignments : clean → ∀ assignment ∈ assignments, assignment.value.Plain)
    (hcondition : clean → Phrase.restrictionPlain condition) (hsound : before.Sound schema clean) :
    Builds updateBound UpdateHolds schema clean before (do
      let assignments ← assignments.mapM assignment
      let condition ← bulkRestriction condition
      return (assignments, condition)) := by
  have hvalues : Builds (fun values : List Assignment => values.flatMap Assignment.boundElements)
      (fun rules scope values => ∀ value ∈ values, Assignment.Holds rules scope value) schema clean
      before (assignments.mapM assignment) :=
    mapM_builds hsound keeps_assignment fun written hwritten _ hcontext =>
      assignment_builds (fun hc => hassignments hc written hwritten) hcontext
  refine two_build hvalues (bulkRestriction_builds hcondition) ?_
    (fun _ _ => rfl) fun _ _ hvalues hrestriction => ⟨hvalues, hrestriction⟩
  intro _ _ _ _ _ himp hsub h assignment hassignment
  exact keeps_assignment himp hsub (h assignment hassignment)

theorem update_builds {target : Phrase.Root} {assignments : List Phrase.Assignment}
    {condition : Option Phrase.Predicate}
    (hplain : clean → (Phrase.Statement.update target assignments condition).Plain) :
    Ends schema .empty (update target assignments condition)
      (BuiltStatement schema clean) := by
  refine ends_bind (bulk_ends (fun hc => (hplain hc).1) (.empty schema clean) fun _ _ hcontext =>
    updateClauses_build (fun hc => (hplain hc).2.1) (fun hc => (hplain hc).2.2) hcontext) ?_
  rintro ⟨⟨values, restriction⟩, spaces⟩ last ⟨hadvances, hspaces, hvalues⟩
  refine ends_bind (ends_ofExcept (Q := fun space final => last = final ∧ spaces = [space]
    ∧ space.joins = []) fun space hsingle => ⟨rfl, singleSpace_ok hsingle⟩) ?_
  rintro space final ⟨rfl, rfl, hjoins⟩
  rw [bulk_scope hadvances] at hspaces hvalues
  refine ends_pure ⟨hadvances.sound, ⟨hspaces.1, hvalues⟩, ?_, ?_⟩
  · simpa [Statement.boundElements, spacesBound, updateBound] using hadvances.placedOnce
  · intro other hother
    cases hother
    exact hjoins

theorem delete_builds {target : Phrase.Root} {condition : Option Phrase.Predicate}
    (hplain : clean → (Phrase.Statement.delete target condition).Plain) :
    Ends schema .empty (delete target condition) (BuiltStatement schema clean) := by
  refine ends_bind (bulk_ends (fun hc => (hplain hc).1) (.empty schema clean)
    fun _ _ hcontext => bulkRestriction_builds (fun hc => (hplain hc).2) hcontext) ?_
  rintro ⟨restriction, spaces⟩ last ⟨hadvances, hspaces, hrestriction⟩
  refine ends_bind (ends_ofExcept (Q := fun space final => last = final ∧ spaces = [space]
    ∧ space.joins = []) fun space hsingle => ⟨rfl, singleSpace_ok hsingle⟩) ?_
  rintro space final ⟨rfl, rfl, hjoins⟩
  rw [bulk_scope hadvances] at hspaces hrestriction
  refine ends_pure ⟨hadvances.sound, ⟨hspaces.1, hrestriction⟩, ?_, ?_⟩
  · simpa [Statement.boundElements, spacesBound] using hadvances.placedOnce
  · intro other hother
    cases hother
    exact hjoins

/-- The state fields of an insertion are taken from its target. -/
theorem insertFields_build (fields : List DottedName) (element : FromElement) {context : Context}
    (hsound : context.Sound schema clean) :
    Builds (fun values : List AttributeReference => values.flatMap fun value =>
        value.boundElements)
      (fun rules scope values => ∀ value ∈ values, value.Holds rules scope) schema clean context
      (under .bulk (fields.mapM fun field => stateField ⟨element.aliasName :: field.parts⟩)) := by
  refine under_ends hsound fun context hcontext => ?_
  exact mapM_builds hcontext (fun himp hsub h => AttributeReference.Holds.mono himp hsub h)
    fun field _ _ hsound => stateField_builds hsound _

theorem insert_builds {target : DottedName} {fields : List DottedName} {written : Phrase.Query}
    (hplain : clean → written.Plain) :
    Ends schema .empty (insert target fields written) (BuiltStatement schema clean) := by
  have hnone : clean → Phrase.PlainVariable none := fun _ _ h => by cases h
  refine ends_bind (bulk_ends hnone (.empty schema clean) (insertFields_build fields)) ?_
  rintro ⟨values, spaces⟩ between ⟨hadvances, hspaces, hvalues⟩
  refine ends_bind (query_builds written false hplain hadvances.sound) ?_
  rintro select last ⟨hlater, hselect⟩
  refine ends_bind (ends_ofExcept (Q := fun space final => last = final ∧ spaces = [space]
    ∧ space.joins = []) fun space hsingle => ⟨rfl, singleSpace_ok hsingle⟩) ?_
  rintro space final ⟨rfl, rfl, hjoins⟩
  have hboth := hadvances.trans hlater
  have hself : space.elements ⊆ space.elements := fun _ h => h
  rw [bulk_scope hadvances] at hspaces hvalues
  rw [Context.scope, hboth.levels_eq_nil] at hselect
  refine ends_pure ⟨hboth.sound, ⟨hspaces.1.mono hlater.rules hself, fun field hfield => ?_,
    hselect⟩, ?_, ?_⟩
  · exact (hvalues field hfield).mono hlater.rules hself
  · simpa [Statement.boundElements, spacesBound] using hboth.placedOnce
  · intro other hother
    cases hother
    exact hjoins

theorem statement_builds (written : Phrase.Statement) (hplain : clean → written.Plain) :
    Ends schema .empty (statement written) (BuiltStatement schema clean) := by
  cases written with
  | select query =>
    refine ends_bind (query_builds query false hplain (.empty schema clean)) ?_
    rintro select last ⟨hadvances, hselect⟩
    rw [Context.scope, hadvances.levels_eq_nil] at hselect
    exact ends_pure ⟨hadvances.sound, hselect, hadvances.placedOnce, fun _ h => by cases h⟩
  | update target assignments condition => exact update_builds hplain
  | delete target condition => exact delete_builds hplain
  | insert target fields query => exact insert_builds hplain

end Step

/-- The meaning of a phrase is built in a state that holds its marks. -/
theorem interpretPhrase_built {phrase : Phrase.Statement} {meaning : Meaning}
    (hplain : clean → phrase.Plain) (h : interpretPhrase phrase schema = .ok meaning) :
    ∃ context, BuiltStatement schema clean meaning.statement context
      ∧ context.narrowings = meaning.narrowings := by
  unfold interpretPhrase at h
  split at h
  · rename_i statement context hrun
    cases h
    exact ⟨context, Step.statement_builds phrase hplain statement context hrun, rfl⟩
  · cases h

/-- A text whose meaning passes a test is read as a phrase with that meaning. -/
theorem interpret_passes {text : String} {test : Meaning → Bool}
    (h : (interpret text schema).toOption.any test = true) :
    ∃ phrase meaning, Phrase.Statement.ofText text = .ok phrase
      ∧ interpretPhrase phrase schema = .ok meaning ∧ test meaning = true := by
  unfold interpret at h
  cases hread : Phrase.Statement.ofText text with
  | error report =>
    rw [hread] at h
    cases h
  | ok phrase =>
    rw [hread] at h
    change ((interpretPhrase phrase schema).mapError Fault.report).toOption.any test = true at h
    cases hmeaning : interpretPhrase phrase schema with
    | error fault =>
      rw [hmeaning] at h
      cases h
    | ok meaning =>
      rw [hmeaning] at h
      exact ⟨phrase, meaning, rfl, hmeaning, h⟩

/-- A text with a meaning is read as a phrase with that meaning. -/
theorem interpret_isOk {text : String} (h : (interpret text schema).isOk = true) :
    ∃ phrase meaning, Phrase.Statement.ofText text = .ok phrase
      ∧ interpretPhrase phrase schema = .ok meaning := by
  have hpasses : (interpret text schema).toOption.any (fun _ => true) = true := by
    cases hmeaning : interpret text schema with
    | error report =>
      rw [hmeaning] at h
      cases h
    | ok meaning => rfl
  obtain ⟨phrase, meaning, hread, hmeaning, -⟩ := interpret_passes hpasses
  exact ⟨phrase, meaning, hread, hmeaning⟩

end EntityQuery.Interpretation

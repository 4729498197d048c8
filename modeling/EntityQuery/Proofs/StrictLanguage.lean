import EntityQuery.Proofs.BuiltStatements
import EntityQuery.Proofs.RenderedQueries

/-!
# The strict language

A statement renders the phrase that it was read from. The strict language does not give a phrase
another meaning than the lenient one. It rejects some of the phrases that have one, and it may find
a reason to reject a phrase before the lenient language finds that it has no meaning.

The target of a bulk statement is the one space that its level is left with; the paths of its
clauses must not have added joins to it.

* `Step.mapM_renders`, `Step.under_renders`: steps put together.
* `Step.bulk_renders`: a level with the target of a bulk statement.
* `Step.statement_renders`: the meaning of a statement renders it.
* `interpretPhrase_audit`: a meaning under the lenient language beside the strict one.
* `interpretPhrase_renders`: a meaning renders its phrase.
* `interpretPhrase_strict`: what the strict language accepts.
-/

namespace EntityQuery.Interpretation

namespace Step

variable {schema : Schema} {before : Context}

/-! ## Clauses of bulk statements -/

theorem mapM_renders {α β : Type} {items : List β} {visit : β → Step α} {compliant : β → Prop}
    {renders : Bool → β → α → Prop} (hready : before.Ready schema)
    (h : ∀ item ∈ items, ∀ {context : Context}, context.Ready schema →
      Rendering (compliant item) (fun maps => renders maps item) schema context (visit item)) :
    Rendering (∀ item ∈ items, compliant item)
      (fun maps => List.Forall₂ (renders maps) items) schema before (items.mapM visit) := by
  induction items generalizing before with
  | nil =>
    rw [List.mapM_nil]
    exact audit_pure ⟨hready, .of_form (fun _ => .nil) (by simp)⟩
  | cons item items ih =>
    rw [List.mapM_cons]
    exact two_render (h item List.mem_cons_self hready)
      (fun hbetween => ih hbetween fun other hother => h other (List.mem_cons_of_mem _ hother))
      List.forall_mem_cons fun _ _ _ => List.forall₂_cons

theorem assignmentsRender_iff {maps : Bool} {written : List Phrase.Assignment}
    {nodes : List Resolved.Assignment} :
    Phrase.assignmentsRender schema maps written nodes
      ↔ List.Forall₂ (fun assignment node => node.target.indices = []
        ∧ assignment.value.Renders schema maps node.value) written nodes := by
  induction written generalizing nodes with
  | nil => simp [Phrase.assignmentsRender]
  | cons first rest ih =>
    rw [List.forall₂_cons_left_iff]
    constructor
    · rintro ⟨target, value, others, rfl, htarget, hvalue, hothers⟩
      exact ⟨⟨target, value⟩, others, ⟨htarget, hvalue⟩, ih.mp hothers, rfl⟩
    · rintro ⟨node, others, ⟨htarget, hvalue⟩, hothers, rfl⟩
      exact ⟨node.target, node.value, others, rfl, htarget, hvalue, ih.mpr hothers⟩

theorem stateField_renders (hready : before.Ready schema) (field : DottedName) :
    Rendering True (fun _ (reference : Resolved.AttributeReference) => reference.indices = [])
      schema before (stateField field) := by
  refine free_renders trivial (S := SameDepth) ?_
    (ends_mono (stateField_builds hready.sound field) fun _ _ h => h.1.ready hready) ?_
  · refine moves_bind (anyMotion schema).trans (path_moves (anyMotion schema) field)
      fun value _ _ => ?_
    split
    · exact moves_pure (anyMotion schema).refl _
    · exact moves_throw (anyMotion schema).refl nofun
  · refine ends_bind (path_place field) fun value _ hplace => ?_
    split
    · exact ends_pure fun _ => hplace
    · exact ends_throw _

/-- A step under a resolver of its own renders what it renders without. -/
theorem under_renders {α : Type} {compliant : Prop} {renders : Bool → α → Prop}
    (hready : before.Ready schema) (resolver : Resolver) {step : Step α}
    (h : ∀ {context : Context}, context.Ready schema →
      Rendering compliant renders schema context step) :
    Rendering compliant renders schema before (under resolver step) := by
  have hpush : before.Advances (schema.withStrict false) False [] (before.pushResolver resolver) :=
    hready.sound.idle _ before.style? before.advisories
  refine audit_under (audit_mono (h ⟨hpush.sound, hready.inside⟩) ?_)
  rintro fine value after ⟨hafter, hvalue⟩
  exact ⟨⟨(hafter.sound.idle _ after.style? after.advisories).sound, hafter.inside⟩, hvalue⟩

theorem assignment_renders (hready : before.Ready schema) (written : Phrase.Assignment) :
    Rendering (written.value.Meets (Phrase.compliance schema))
      (fun maps node => node.target.indices = [] ∧ written.value.Renders schema maps node.value)
      schema before (assignment written) :=
  under_renders hready _ fun hcontext =>
    two_render (stateField_renders hcontext _) (expression_renders written.value) (by simp)
      fun _ _ _ => Iff.rfl

theorem bulkRestriction_renders (hready : before.Ready schema)
    (condition : Option Phrase.Predicate) :
    Rendering (Phrase.restrictionMeets (Phrase.compliance schema) condition)
      (fun maps => Phrase.restrictionRenders schema maps condition) schema before
      (bulkRestriction condition) := by
  cases condition with
  | none =>
    exact audit_pure ⟨hready, .of_form (fun _ => rfl) (by simp [Phrase.restrictionMeets])⟩
  | some written =>
    exact one_renders (under_renders hready _ (predicate_renders written)) Iff.rfl
      fun _ _ => by simp [Phrase.restrictionRenders]

/-! ## Targets of bulk statements -/

/-- The target of a bulk statement is the root of a mapped entity in a space of its own. -/
theorem bulkTarget_audit (hready : before.Ready schema) (written : Phrase.Root) :
    Audit schema before (bulkTarget written) fun fine element after =>
      (fine ↔ Phrase.CompliantRoot schema written) ∧ written.Renders schema true element
        ∧ after.Ready schema ∧ before.levels.Appends [.mk element []] after.levels := by
  refine audit_bind (openSpace_audit hready) ?_
  rintro _ id first - ⟨rfl, hfirst, opened, below, hlevels, hopened, rfl⟩
  have hlevel : false = true → 0 < below.length := fun h => by cases h
  refine audit_bind (openedRoot_audit hfirst hopened written hlevel) ?_
  rintro fine element second - ⟨hfine, hroot, hsecond, hrooted⟩
  split
  · exact audit_throw_bind _ _
  · rename_i hmapped
    obtain ⟨binding, entity, rfl, hentity, htype, -⟩ := hroot
    have hentityMapped : entity.isPolymorphic = false := by
      rw [← EntityReference.isPolymorphic_type, ← htype]
      exact Bool.not_eq_true _ ▸ hmapped
    refine audit_pure ⟨by simpa using hfine, ⟨binding, entity, rfl, hentity, htype,
      fun _ => hentityMapped⟩, hsecond, ?_⟩
    exact ⟨opened, opened, below, below, hlevels, hrooted, clauseSpreads_refl _, .refl _⟩

/-- A level with the target of a bulk statement and the clauses that refer to it. -/
theorem bulk_renders {α : Type} {written : Phrase.Root} {clauses : FromElement → Step α}
    {compliant : Prop} {renders : Bool → α → Prop}
    (hclauses : ∀ element {context : Context}, context.Ready schema →
      Rendering compliant renders schema context (clauses element))
    (hspreads : ∀ element {context : Context},
      Moves (schema.withStrict false) False SpreadsAcross context (clauses element)) :
    Audit schema .empty (onLevel do clauses (← bulkTarget written)) fun fine value _ =>
      (∃ element more, value.2 = [.mk element more] ∧ written.Renders schema true element)
        ∧ Rendered (Phrase.CompliantRoot schema written ∧ compliant)
          (fun maps => renders maps value.1) fine := by
  have hstart : Context.empty.openLevel.Ready schema :=
    ⟨(Context.Sound.empty _ _).openLevel, List.cons_ne_nil _ _⟩
  refine audit_onLevel ?_
  refine audit_bind (bulkTarget_audit hstart written) ?_
  rintro fine element first - ⟨hfine, hrenders, hready, happends⟩
  refine audit_mono (audit_with (hclauses element hready) (hspreads element).ends) ?_
  rintro fine' value last ⟨⟨-, hvalue⟩, hspread⟩ spaces hclose
  obtain ⟨finished, hfinished, hspaces⟩ := happends.finished hspread
  rw [hfinished] at hclose
  cases hclose
  obtain ⟨space, rest, ⟨more, rfl, -⟩, hnil, rfl⟩ := List.forall₂_cons_left_iff.mp hspaces
  cases hnil
  refine ⟨⟨element, more, rfl, hrenders⟩, ?_⟩
  have hhead : Rendered (Phrase.CompliantRoot schema written) (fun _ => True) fine :=
    .of_form (fun _ => trivial) hfine
  exact hhead.and hvalue Iff.rfl fun _ => by simp

/-- A target to which nothing is joined is the one space of its statement. -/
theorem singleSpace_audit {element : FromElement} {more : List Resolved.Join} :
    Audit schema before (ofExcept (singleSpace [.mk element more])) fun fine space after =>
      fine = True ∧ before = after ∧ space = .mk element [] := by
  refine audit_ofExcept fun space hsingle => ⟨rfl, rfl, ?_⟩
  obtain ⟨hspace, hjoins⟩ := singleSpace_ok hsingle
  cases hspace
  cases hjoins
  rfl

/-! ## Statements -/

theorem update_renders (target : Phrase.Root) (assignments : List Phrase.Assignment)
    (condition : Option Phrase.Predicate) :
    Audit schema .empty (update target assignments condition) fun fine node _ =>
      Rendered ((Phrase.Statement.update target assignments condition).Meets
          (Phrase.compliance schema))
        (fun maps => (Phrase.Statement.update target assignments condition).Renders schema maps
          node) fine := by
  have hclauses : ∀ (_ : FromElement) {context : Context}, context.Ready schema →
      Rendering ((∀ written ∈ assignments, written.value.Meets (Phrase.compliance schema))
          ∧ Phrase.restrictionMeets (Phrase.compliance schema) condition)
        (fun maps clauses => Phrase.assignmentsRender schema maps assignments clauses.1
          ∧ Phrase.restrictionRenders schema maps condition clauses.2) schema context (do
        let assignments ← assignments.mapM assignment
        let condition ← bulkRestriction condition
        return (assignments, condition)) := by
    intro _ context hcontext
    exact two_render (mapM_renders hcontext fun written _ _ hinner =>
        assignment_renders hinner written)
      (fun hbetween => bulkRestriction_renders hbetween condition) Iff.rfl
      fun _ _ _ => and_congr_left fun _ => assignmentsRender_iff
  have hspreads : ∀ (_ : FromElement) {context : Context},
      Moves (schema.withStrict false) False SpreadsAcross context (do
        let assignments ← assignments.mapM assignment
        let condition ← bulkRestriction condition
        return (assignments, condition)) := by
    intro _ context
    refine moves_bind (lenientSpread schema).trans (mapM_moves (lenientSpread schema).refl
      (lenientSpread schema).trans fun written _ _ => assignment_moves (lenientSpread schema)
        (written.value.meets treating_always)) fun _ _ _ => ?_
    exact moves_bind (lenientSpread schema).trans (bulkRestriction_moves (lenientSpread schema)
      (Phrase.restriction_meets treating_always condition))
      fun _ _ _ => moves_pure (lenientSpread schema).refl _
  refine audit_bind (bulk_renders hclauses hspreads) ?_
  rintro fine ⟨⟨assigned, restriction⟩, spaces⟩ after - ⟨⟨element, more, rfl, helement⟩, hrendered⟩
  refine audit_bind singleSpace_audit ?_
  rintro _ space last - ⟨rfl, rfl, rfl⟩
  refine audit_pure (hrendered.imp Iff.rfl (fun maps => ?_) (by simp))
  constructor
  · rintro ⟨_, _, _, hform, -, h⟩
    cases hform
    exact h
  · exact fun h => ⟨element, assigned, restriction, rfl, helement, h⟩

theorem delete_renders (target : Phrase.Root) (condition : Option Phrase.Predicate) :
    Audit schema .empty (delete target condition) fun fine node _ =>
      Rendered ((Phrase.Statement.delete target condition).Meets (Phrase.compliance schema))
        (fun maps => (Phrase.Statement.delete target condition).Renders schema maps node) fine := by
  refine audit_bind (bulk_renders (fun _ context hcontext =>
    bulkRestriction_renders hcontext condition) fun _ context =>
      bulkRestriction_moves (lenientSpread schema)
        (Phrase.restriction_meets treating_always condition)) ?_
  rintro fine ⟨restriction, spaces⟩ after - ⟨⟨element, more, rfl, helement⟩, hrendered⟩
  refine audit_bind singleSpace_audit ?_
  rintro _ space last - ⟨rfl, rfl, rfl⟩
  refine audit_pure (hrendered.imp Iff.rfl (fun maps => ?_) (by simp))
  constructor
  · rintro ⟨_, _, hform, -, h⟩
    cases hform
    exact h
  · exact fun h => ⟨element, restriction, rfl, helement, h⟩

/-- The query of an insertion is read in the state that its target has left. -/
theorem insert_renders (target : DottedName) (fields : List DottedName) (written : Phrase.Query) :
    Audit schema .empty (insert target fields written) fun fine node _ =>
      Rendered ((Phrase.Statement.insert target fields written).Meets (Phrase.compliance schema))
        (fun maps => (Phrase.Statement.insert target fields written).Renders schema maps node)
        fine := by
  have hplain : False → Phrase.PlainVariable none := fun h => h.elim
  have hclauses : ∀ (element : FromElement) {context : Context}, context.Ready schema →
      Rendering (∀ _ ∈ fields, True) (fun _ =>
          List.Forall₂ (fun _ field => Resolved.AttributeReference.indices field = []) fields)
        schema context
        (under .bulk (fields.mapM fun field => stateField ⟨element.aliasName :: field.parts⟩)) :=
    fun _ _ hcontext => under_renders hcontext _ fun hinner =>
      mapM_renders hinner fun _ _ _ hfield => stateField_renders hfield _
  have hspreads : ∀ (element : FromElement) {context : Context},
      Moves (schema.withStrict false) False SpreadsAcross context
        (under .bulk (fields.mapM fun field => stateField ⟨element.aliasName :: field.parts⟩)) :=
    fun element _ => under_moves (lenientSpread schema) _ <|
      mapM_moves (lenientSpread schema).refl (lenientSpread schema).trans
        fun _ _ _ => stateField_moves (lenientSpread schema) _
  refine audit_bind (audit_with (bulk_renders hclauses hspreads)
    (bulk_ends hplain (.empty _ False) (insertFields_build fields))) ?_
  rintro fine ⟨values, spaces⟩ between -
    ⟨⟨⟨element, more, rfl, helement⟩, hrendered⟩, hadvances, -⟩
  have hnone : false = true → between.levels ≠ [] := fun h => by cases h
  refine audit_bind (query_renders written false hadvances.sound hnone) ?_
  rintro fine' select last - hselect
  refine audit_bind singleSpace_audit ?_
  rintro _ space last - ⟨rfl, rfl, rfl⟩
  refine audit_pure ((hrendered.and hselect Iff.rfl fun _ => Iff.rfl).imp ?_ (fun maps => ?_)
    (by simp))
  · simp [Phrase.Statement.Meets]
  · constructor
    · rintro ⟨_, _, _, hform, -, h⟩
      cases hform
      exact h
    · exact fun h => ⟨element, values, select, rfl, helement, h⟩

/-- A statement is rendered from the empty state. -/
theorem statement_renders (written : Phrase.Statement) :
    Audit schema .empty (statement written) fun fine node _ =>
      Rendered (written.Meets (Phrase.compliance schema))
        (fun maps => written.Renders schema maps node) fine := by
  cases written with
  | select query =>
    refine audit_bind (query_renders query false (.empty _ _) fun h => by cases h) ?_
    rintro fine select after - hrendered
    refine audit_pure (hrendered.imp Iff.rfl (fun maps => ?_) (by simp))
    simp [Phrase.Statement.Renders]
  | update target assignments condition => exact update_renders target assignments condition
  | delete target condition => exact delete_renders target condition
  | insert target fields query => exact insert_renders target fields query

end Step
end EntityQuery.Interpretation

/-! ## The strict language -/

namespace EntityQuery

open Interpretation

variable {schema : Schema} {phrase : Phrase.Statement}

/-- What has a meaning under the lenient schema is rendered by it, and has that meaning under the
strict one exactly if the strict language allows it. -/
theorem interpretPhrase_audit {meaning : Meaning}
    (h : interpretPhrase phrase (schema.withStrict false) = .ok meaning) :
    phrase.Renders schema false meaning.statement
      ∧ (phrase.Compliant schema ∧ phrase.Renders schema true meaning.statement →
        interpretPhrase phrase (schema.withStrict true) = .ok meaning)
      ∧ (¬(phrase.Compliant schema ∧ phrase.Renders schema true meaning.statement) →
        ∃ breach, interpretPhrase phrase (schema.withStrict true) = .error (.strict breach)) := by
  have haudit : Step.Audit schema .empty (Step.statement phrase) _ :=
    Step.statement_renders phrase
  unfold Step.Audit at haudit
  unfold interpretPhrase at h ⊢
  cases hrun : (Step.statement phrase).run' (schema.withStrict false) .empty with
  | mk outcome context =>
    rw [hrun] at haudit h
    cases outcome with
    | error fault => cases h
    | ok statement =>
      cases h
      obtain ⟨fine, hrendered, hsame, hbreaks⟩ := haudit
      refine ⟨hrendered.form, fun hfine => ?_, fun hfine => ?_⟩
      · rw [hsame (hrendered.fine.mpr hfine)]
      · obtain ⟨breach, hbreach⟩ := hbreaks fun h => hfine (hrendered.fine.mp h)
        generalize (Step.statement phrase).run' (schema.withStrict true) .empty = strict
          at hbreach ⊢
        obtain ⟨outcome, after⟩ := strict
        cases hbreach
        exact ⟨breach, rfl⟩

/-- What has no meaning under the lenient schema has none under the strict one. -/
theorem interpretPhrase_fails {fault : Fault}
    (h : interpretPhrase phrase (schema.withStrict false) = .error fault) :
    interpretPhrase phrase (schema.withStrict true) = .error fault
      ∨ ∃ breach, interpretPhrase phrase (schema.withStrict true) = .error (.strict breach) := by
  have haudit : Step.Audit schema .empty (Step.statement phrase) _ :=
    Step.statement_renders phrase
  unfold Step.Audit at haudit
  unfold interpretPhrase at h ⊢
  cases hrun : (Step.statement phrase).run' (schema.withStrict false) .empty with
  | mk outcome context =>
    rw [hrun] at haudit h
    cases outcome with
    | ok statement => cases h
    | error other =>
      cases h
      rcases haudit with hsame | ⟨breach, hbreach⟩
      · exact .inl (by rw [hsame])
      · generalize (Step.statement phrase).run' (schema.withStrict true) .empty = strict
          at hbreach ⊢
        obtain ⟨outcome, after⟩ := strict
        cases hbreach
        exact .inr ⟨breach, rfl⟩

/-- What has a meaning under the strict language has it under the lenient one, and it contains
nothing that the strict language rejects. -/
theorem interpretPhrase_accepted {meaning : Meaning}
    (h : interpretPhrase phrase (schema.withStrict true) = .ok meaning) :
    interpretPhrase phrase (schema.withStrict false) = .ok meaning ∧ phrase.Compliant schema
      ∧ phrase.Renders schema true meaning.statement := by
  cases hlenient : interpretPhrase phrase (schema.withStrict false) with
  | error fault =>
    rcases interpretPhrase_fails hlenient with hsame | ⟨breach, hbreach⟩
    · rw [hsame] at h
      cases h
    · rw [hbreach] at h
      cases h
  | ok other =>
    obtain ⟨-, hsame, hbreaks⟩ := interpretPhrase_audit hlenient
    by_cases hfine : phrase.Compliant schema ∧ phrase.Renders schema true other.statement
    · rw [hsame hfine] at h
      cases h
      exact ⟨rfl, hfine⟩
    · obtain ⟨breach, hbreach⟩ := hbreaks hfine
      rw [hbreach] at h
      cases h

/-- A meaning under either language renders its phrase. -/
theorem interpretPhrase_renders {meaning : Meaning}
    (h : interpretPhrase phrase schema = .ok meaning) :
    phrase.Renders schema false meaning.statement := by
  have hschema : schema.withStrict schema.strict = schema := rfl
  cases hstrict : schema.strict with
  | false =>
    rw [← hschema, hstrict] at h
    exact (interpretPhrase_audit h).1
  | true =>
    rw [← hschema, hstrict] at h
    exact (interpretPhrase_audit (interpretPhrase_accepted h).1).1

/-- The strict language does what the lenient one does, or it rejects a phrase. It accepts what the
lenient one accepts and what contains nothing that it rejects: nothing in the phrase itself, and no
value of a join that the lenient language takes for the joined element. -/
theorem interpretPhrase_strict (phrase : Phrase.Statement) (schema : Schema) :
    (interpretPhrase phrase (schema.withStrict true)
          = interpretPhrase phrase (schema.withStrict false)
        ∨ ∃ breach, interpretPhrase phrase (schema.withStrict true) = .error (.strict breach))
      ∧ (∀ breach, interpretPhrase phrase (schema.withStrict false) ≠ .error (.strict breach))
      ∧ (∀ meaning, interpretPhrase phrase (schema.withStrict false) = .ok meaning →
        phrase.Renders schema false meaning.statement)
      ∧ ((∃ meaning, interpretPhrase phrase (schema.withStrict true) = .ok meaning)
        ↔ ∃ meaning, interpretPhrase phrase (schema.withStrict false) = .ok meaning
          ∧ phrase.Compliant schema ∧ phrase.Renders schema true meaning.statement) := by
  refine ⟨?_, interpretPhrase_lenient rfl, fun _ h => (interpretPhrase_audit h).1, ?_⟩
  · cases hlenient : interpretPhrase phrase (schema.withStrict false) with
    | error fault => exact interpretPhrase_fails hlenient
    | ok meaning =>
      obtain ⟨-, hsame, hbreaks⟩ := interpretPhrase_audit hlenient
      by_cases hfine : phrase.Compliant schema ∧ phrase.Renders schema true meaning.statement
      · exact .inl (hsame hfine)
      · exact .inr (hbreaks hfine)
  · constructor
    · rintro ⟨meaning, hstrict⟩
      exact ⟨meaning, interpretPhrase_accepted hstrict⟩
    · rintro ⟨meaning, hlenient, hfine⟩
      exact ⟨meaning, (interpretPhrase_audit hlenient).2.1 hfine⟩

end EntityQuery

import EntityQuery.Proofs.Audit
import EntityQuery.Proofs.BuiltPaths
import EntityQuery.Proofs.MovedStatements
import EntityQuery.Proofs.PhraseJudgement
import EntityQuery.Proofs.Renders

/-!
# What paths are rendered as

A path without an index is rendered as an expression that has no operands, and one with an index as
an expression with that one operand. Where a part of an expression is compared under both languages,
the comparison comes with what the part is rendered as.

* `Step.path_place`, `Step.treated_place`, `Step.indexed_indices`: the operands of paths.
* `Rendered`, `Step.Rendering`: a step renders a phrase, and the strict language does the same
  exactly for compliant phrases whose values of joins are values of maps.
* `Step.literal_renders`, `Step.pathOrCall_renders`, `Step.mapEntry_renders`, …: the forms that have no
  expressions as parts.
-/

namespace EntityQuery.Interpretation

open Resolved (AttributeReference Expression IndexedReference PathSource)

namespace Step

variable {schema : Schema} {before : Context}

/-! ## Operands of paths -/

theorem attributeReference_indices (source : PathSource) (type : TypeDescriptor) (name : String)
    (path : DottedName) :
    Ends schema before (attributeReference source type name path) fun attained _ =>
      attained.indices = source.indices := by
  unfold attributeReference
  split
  · exact ends_throw _
  · exact ends_bind (ends_attributeType (Q := fun _ _ => True) fun _ _ => trivial)
      fun _ _ _ => ends_pure rfl

theorem composites_indices (path : DottedName) (source : PathSource) (type : TypeDescriptor)
    (place : String) (names : List String) :
    Ends schema before (composites path source type place names) fun reached _ =>
      reached.1.indices = source.indices := by
  induction names generalizing before source type place with
  | nil => exact ends_pure rfl
  | cons name names ih =>
    refine ends_bind (attributeReference_indices source type name path) fun attained _ hfirst => ?_
    refine ends_bind (ends_ofExcept (Q := fun _ _ => True) fun _ _ => trivial) fun _ _ _ => ?_
    split
    · exact ends_mono (ih (.reference attained) _ _) fun _ _ hrest => hrest.trans hfirst
    · exact ends_throw _

theorem attributes_indices (path : DottedName) (source : PathSource) (type : TypeDescriptor)
    (names : List String) :
    Ends schema before (attributes path source type names) fun reached _ =>
      reached.1.indices = source.indices := by
  induction names generalizing before source type with
  | nil => exact ends_pure rfl
  | cons name names ih =>
    refine ends_bind (attributeReference_indices source type name path) fun attained _ hfirst => ?_
    refine ends_bind (ends_ofExcept (Q := fun _ _ => True) fun _ _ => trivial) fun _ _ _ => ?_
    exact ends_mono (ih (.reference attained) _) fun _ _ hrest => hrest.trans hfirst

theorem navigate_place (element : FromElement) (names : List String) (path : DottedName) :
    Ends schema before (navigate element names path) fun value _ => value.IsPlace := by
  unfold navigate
  refine ends_bind (ends_checkReach (Q := fun _ _ => True) trivial) fun _ _ _ => ?_
  split
  · exact ends_pure trivial
  · refine ends_get_bind ?_
    dsimp only
    split
    · refine ends_bind (composites_indices path (.element element) _ _ _)
        fun reached _ hreached => ?_
      refine ends_bind (attributeReference_indices _ _ _ _) fun attained _ hattained => ?_
      exact ends_pure (hattained.trans hreached)
    · refine ends_bind (Q := fun _ _ => True) (fun _ _ _ => trivial) fun source _ _ => ?_
      exact ends_bind (attributeReference_indices (.element source) _ _ _)
        fun attained _ hattained => ends_pure hattained

theorem navigateIndexed_indices (indexed : IndexedReference) (path : DottedName) :
    Ends schema before (navigateIndexed indexed path) fun value _ =>
      value.indices = indexed.indices := by
  unfold navigateIndexed
  split
  · exact ends_pure rfl
  · refine ends_bind (attributes_indices path (.indexed indexed) _ _) fun reached _ hreached => ?_
    refine ends_bind (attributeReference_indices _ _ _ _) fun attained _ hattained => ?_
    exact ends_pure (hattained.trans hreached)

theorem constant?_place {path : DottedName} {value : Expression}
    (h : constant? schema path = some value) : value.IsPlace := by
  unfold constant? at h
  obtain ⟨member, -, h⟩ := Option.bind_eq_some_iff.mp h
  dsimp only at h
  split at h
  · cases h
  · obtain ⟨hostClass, -, h⟩ := Option.bind_eq_some_iff.mp h
    obtain ⟨type, -, h⟩ := Option.bind_eq_some_iff.mp h
    cases h
    trivial

theorem path_place (dotted : DottedName) :
    Ends schema before (path dotted) fun value _ => value.IsPlace := by
  unfold path
  split
  · exact ends_throw _
  refine ends_get_bind (ends_read_bind ?_)
  split
  · exact navigate_place _ _ _
  split
  · exact ends_pure trivial
  split
  · rename_i hconstant
    exact ends_pure (constant?_place hconstant)
  refine ends_bind (ends_ofExcept (Q := fun _ _ => True) fun _ _ => trivial) fun owner? _ _ => ?_
  split
  · exact navigate_place _ _ _
  · exact ends_throw _

theorem pathOrCall_place (dotted : DottedName) :
    Ends schema before (pathOrCall dotted) fun value _ => value.IsPlace := by
  refine ends_get_bind ?_
  split
  · exact ends_pure rfl
  · exact path_place dotted

theorem indexed_indices (base : DottedName) (index : Expression) (remainder : Option DottedName) :
    Ends schema before (indexed base index remainder) fun value _ => value.indices = [index] := by
  refine ends_bind (path_place base) fun value _ hplace => ?_
  split
  · rename_i collection
    have hnone : collection.indices = [] := hplace
    split
    · rename_i type hindex htype
      have hindices : (IndexedReference.mk collection index type).indices = [index] := by
        rw [IndexedReference.indices, hnone, List.nil_append]
      split
      · exact ends_pure hindices
      · exact ends_under (ends_mono (navigateIndexed_indices _ _) fun _ _ h => h.trans hindices)
    · exact ends_throw _
  · exact ends_throw _

theorem treated_place (base target : DottedName) (remainder : Option DottedName) :
    Ends schema before (treated base target remainder) fun value _ => value.IsPlace := by
  refine ends_bind (Q := fun _ _ => True) (fun _ _ _ => trivial) fun element _ _ => ?_
  refine ends_bind (Q := fun _ _ => True) (fun _ _ _ => trivial) fun narrowed _ _ => ?_
  split
  · exact ends_pure trivial
  · exact navigate_place _ _ _

end Step

/-! ## Steps that render phrases -/

/-- A sound state within a query or a bulk statement. -/
structure Context.Ready (schema : Schema) (context : Context) : Prop where
  sound : context.Sound (schema.withStrict false) False
  inside : context.levels ≠ []

theorem Context.Extends.ready {schema : Schema} {before after : Context}
    {bound : List FromElement} (hready : before.Ready schema)
    (h : before.Extends (schema.withStrict false) False bound after) : after.Ready schema where
  sound := h.sound
  inside := by
    have hlength := h.grow.length_eq
    intro hnone
    rw [hnone] at hlength
    exact hready.inside (List.eq_nil_of_length_eq_zero hlength)

/-- What a step made has the form of a phrase, and it is fine with the strict language exactly if
the phrase is compliant and every value of a join in it is the value of a map. -/
structure Rendered (compliant : Prop) (renders : Bool → Prop) (fine : Prop) : Prop where
  form : renders false
  fine : fine ↔ compliant ∧ renders true

namespace Rendered

variable {compliant first second : Prop} {renders one two : Bool → Prop} {fine other : Prop}

/-- What is rendered in one way only is fine if it is compliant. -/
theorem of_form (h : ∀ maps, renders maps) (hfine : fine ↔ compliant) :
    Rendered compliant renders fine :=
  ⟨h false, hfine.trans (iff_self_and.mpr fun _ => h true)⟩

theorem imp (h : Rendered first one other) (hcompliant : compliant ↔ first)
    (hrenders : ∀ maps, renders maps ↔ one maps) (hfine : fine ↔ other) :
    Rendered compliant renders fine :=
  ⟨(hrenders false).mpr h.form, by rw [hfine, h.fine, hcompliant, hrenders true]⟩

theorem and (h : Rendered first one fine) (h' : Rendered second two other)
    (hcompliant : compliant ↔ first ∧ second)
    (hrenders : ∀ maps, renders maps ↔ one maps ∧ two maps) :
    Rendered compliant renders (fine ∧ other) := by
  refine ⟨(hrenders false).mpr ⟨h.form, h'.form⟩, ?_⟩
  rw [h.fine, h'.fine, hcompliant, hrenders true]
  tauto

end Rendered

namespace Step

variable {α : Type} {schema : Schema} {before : Context}

/-- A step under a lenient schema renders a phrase and leaves a state to go on from, and under the
strict one it does the same exactly if the phrase allows it. -/
def Rendering (compliant : Prop) (renders : Bool → α → Prop) (schema : Schema) (before : Context)
    (step : Step α) : Prop :=
  Audit schema before step fun fine value after =>
    after.Ready schema ∧ Rendered compliant (fun maps => renders maps value) fine

theorem ends_and {step : Step α} {P Q : α → Context → Prop} (h : Ends schema before step P)
    (h' : Ends schema before step Q) :
    Ends schema before step fun value after => P value after ∧ Q value after :=
  fun value after hrun => ⟨h value after hrun, h' value after hrun⟩

/-- A step that does not ask which language is in force renders what is compliant. -/
theorem free_renders {compliant : Prop} (hcompliant : compliant) {renders : Bool → α → Prop}
    {S : Context → Context → Prop} {step : Step α} (hfree : Moves schema True S before step)
    (hready : Ends (schema.withStrict false) before step fun _ after => after.Ready schema)
    (hform : Ends (schema.withStrict false) before step fun value _ =>
      ∀ maps, renders maps value) :
    Rendering compliant renders schema before step :=
  audit_free hfree <| ends_mono (ends_and hready hform) fun _ _ ⟨hafter, hvalue⟩ =>
    ⟨hafter, .of_form hvalue (by simp [hcompliant])⟩

/-- The open from clauses are as many after every step. -/
abbrev anyMotion (schema : Schema) : Motion schema (fun _ => True) SameDepth SameDepth :=
  depthMotion schema fun _ => True

variable (hready : before.Ready schema)
include hready

theorem literal_renders (token : Phrase.Literal) :
    Rendering True (fun maps => (Phrase.Expression.literal token).Renders schema maps) schema
      before (literal token) := by
  refine free_renders trivial (literal_stays token)
    (ends_mono (literal_builds hready.sound token) fun _ _ h => h.1.ready hready) ?_
  unfold literal
  split
  · rename_i value hvalue
    refine ends_pure fun maps => ?_
    unfold Resolved.Literal.ofPhrase at hvalue
    cases hread : Resolved.Literal.readValue token.kind token.text with
    | error fault =>
      rw [hread] at hvalue
      cases hvalue
    | ok read =>
      rw [hread] at hvalue
      cases hvalue
      exact ⟨read, rfl⟩
  · exact ends_throw _

theorem parameter_renders (written : Phrase.Parameter) :
    Rendering True (fun maps => (Phrase.Expression.parameter written).Renders schema maps) schema
      before (parameter written) :=
  free_renders trivial (parameter_moves (anyMotion schema) written)
    (ends_mono (parameter_builds hready.sound written) fun _ _ h => h.1.ready hready)
    (ends_bind (Q := fun _ _ => True) (fun _ _ _ => trivial) fun _ _ _ => ends_pure fun _ => rfl)

theorem pathOrCall_renders (dotted : DottedName) :
    Rendering True (fun maps => (Phrase.Expression.path dotted).Renders schema maps) schema before
      (pathOrCall dotted) :=
  free_renders trivial (pathOrCall_moves (anyMotion schema) dotted)
    (ends_mono (pathOrCall_builds hready.sound dotted) fun _ _ h => h.1.ready hready)
    (ends_mono (pathOrCall_place dotted) fun _ _ h _ => h)

theorem treated_renders (base target : DottedName) (remainder : Option DottedName) :
    Rendering True (fun maps => (Phrase.Expression.treated base target remainder).Renders schema
      maps) schema before (treated base target remainder) :=
  free_renders trivial (treated_moves (anyMotion schema) base trivial remainder)
    (ends_mono (treated_builds hready.sound base target remainder) fun _ _ h => h.1.ready hready)
    (ends_mono (treated_place base target remainder) fun _ _ h _ => h)

/-- The value of a join that is over no map is where the strict language looks at more than the
phrase. -/
theorem mapEntry_renders (function : MapFunction) (argument : DottedName) :
    Rendering True (fun maps => (Phrase.Expression.mapFunction function argument).Renders schema
      maps) schema before (mapEntry function argument) := by
  refine audit_bind (audit_free (Q := fun fine _ after => fine = True
    ∧ after.Ready schema) (fromElementPath_moves (anyMotion schema) argument)
    (ends_mono (fromElementPath_finds hready.sound argument)
      fun _ _ h => ⟨rfl, h.1.ready hready⟩)) ?_
  rintro _ join after - ⟨rfl, hafter⟩
  split
  · exact audit_pure ⟨hafter, .of_form (fun _ => .inl ⟨_, _, rfl⟩) (by simp)⟩
  · refine audit_bind (audit_comply (Q := fun fine _ last => fine = (true = false) ∧ after = last)
      ⟨rfl, rfl⟩) ?_
    rintro _ _ last - ⟨rfl, rfl⟩
    refine audit_pure ⟨hafter, .inr ⟨rfl, rfl, join, rfl⟩, ?_⟩
    simp [Phrase.Expression.Renders]
  · exact audit_pure ⟨hafter, .of_form (fun _ => .inl ⟨_, _, rfl⟩) (by simp)⟩
  · exact audit_pure ⟨hafter, .of_form (fun _ => .inl ⟨_, _, rfl⟩) (by simp)⟩
  · exact audit_throw _

theorem announceCollectionFunction_audit (function : CollectionFunction) :
    Audit schema before (announceCollectionFunction function) fun fine _ after =>
      after.Ready schema ∧ (fine ↔ function.isExtension = false) := by
  unfold announceCollectionFunction
  split
  · rename_i hextension
    refine audit_bind (audit_comply (Q := fun fine _ last => fine = (true = false)
      ∧ before = last) ⟨rfl, rfl⟩) ?_
    rintro _ _ last - ⟨rfl, rfl⟩
    exact audit_modify ⟨(advise_advances hready.sound _ _).ready hready, by simp [hextension]⟩
  · rename_i hextension
    exact audit_pure ⟨hready, by simpa using hextension⟩

theorem announceCall_audit (name : String) (generic : Bool) :
    Audit schema before (announceCall name generic (!generic && Catalogue.isStandardFunction name))
      fun fine _ after => after.Ready schema
        ∧ (fine ↔ generic = true ∨ Catalogue.isStandardFunction name = true) := by
  unfold announceCall
  split
  · rename_i hstandard
    refine audit_bind (audit_comply (Q := fun fine _ last => fine = ((!generic) = false)
      ∧ before = last) ⟨rfl, rfl⟩) ?_
    rintro _ _ last - ⟨rfl, rfl⟩
    refine audit_modify ⟨(advise_advances hready.sound _ _).ready hready, ?_⟩
    cases generic <;> simp_all
  · rename_i hstandard
    exact audit_pure ⟨hready, by cases generic <;> simp_all⟩

end Step
end EntityQuery.Interpretation

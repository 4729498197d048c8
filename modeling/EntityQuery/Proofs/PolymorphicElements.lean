import EntityQuery.Proofs.MappedRoots
import EntityQuery.Proofs.SplitDisjoint
import EntityQuery.Proofs.StrictLanguage

/-!
# Elements over polymorphic names

Joins over entities, the targets of bulk statements and the roots of nested queries range over
mapped entities. What a path or a join is narrowed to need not be mapped, however, and neither need
what an attribute resolves to. Splitting replaces polymorphic roots and leaves all other elements
with their types, so that exactly these elements are left.

* `Step.admissionMotion`: every element that is registered comes by its type in an admitted way.
* `FromElement.Slips`: how an element that is no root gets a polymorphic type.
* `Splitting.split_mapped_iff`: when a part has no polymorphic elements.
* `interpretPhrase_polymorphic`: the polymorphic elements of a statement and of its parts.
-/

namespace EntityQuery

open Interpretation Resolved Splitting

/-- An element gets a polymorphic type by being narrowed to an entity under an admitted name, or as
a join over an attribute of such a type. -/
def FromElement.Slips (schema : Schema) (treat : DottedName → Prop) : FromElement → Prop
  | .attributeJoin binding _ join =>
    (∃ entity, schema.Names treat entity ∧ entity.isPolymorphic = true
        ∧ binding.type = entity.type)
      ∨ schema.resolve? join.declared.type = some join.type
        ∧ binding.type = joinedType none join.type
  | .treated binding _ =>
    ∃ entity, schema.Names treat entity ∧ entity.isPolymorphic = true ∧ binding.type = entity.type
  | _ => False

/-- An admitted element that is polymorphic is a root, or it slips in. -/
theorem FromElement.Admitted.slips {schema : Schema} {treat : DottedName → Prop}
    {element : FromElement} (h : element.Admitted schema treat)
    (hpolymorphic : element.isPolymorphic = true) :
    (∃ binding, element = .root binding) ∨ element.Slips schema treat := by
  cases element with
  | root binding => exact .inl ⟨binding, rfl⟩
  | crossJoin binding =>
    have hmapped : binding.type.isPolymorphic = false := h
    cases hmapped.symm.trans hpolymorphic
  | entityJoin binding joinType =>
    have hmapped : binding.type.isPolymorphic = false := h
    cases hmapped.symm.trans hpolymorphic
  | attributeJoin binding source join =>
    obtain ⟨narrowed?, htype, hresolves, hnamed⟩ := h
    cases narrowed? with
    | none => exact .inr (.inr ⟨hresolves, htype⟩)
    | some entity =>
      have hnarrowed : binding.type = entity.type := htype
      refine .inr (.inl ⟨entity, hnamed entity rfl, ?_, hnarrowed⟩)
      rw [← EntityReference.isPolymorphic_type, ← hnarrowed]
      exact hpolymorphic
  | treated binding wrapped =>
    obtain ⟨entity, hnamed, htype⟩ := h
    refine .inr ⟨entity, hnamed, ?_, htype⟩
    rw [← EntityReference.isPolymorphic_type, ← htype]
    exact hpolymorphic

/-! ## Registered elements -/

namespace Interpretation

/-- Across a step, what is registered stays admitted. -/
def AdmitsAcross (schema : Schema) (treat : DottedName → Prop) (before after : Context) : Prop :=
  SameDepth before after
    ∧ ((∀ element ∈ before.registered, element.Admitted schema treat) →
      ∀ element ∈ after.registered, element.Admitted schema treat)

/-- Only admitted elements are registered. -/
theorem admissionMotion (schema : Schema) (treat : DottedName → Prop) :
    Motion schema treat (AdmitsAcross schema treat) (AdmitsAcross schema treat) where
  refl _ := ⟨rfl, id⟩
  trans _ _ _ h h' := ⟨(depthMotion schema treat).trans _ _ _ h.1 h'.1, h'.2 ∘ h.2⟩
  within _ _ h := h
  transWithin _ _ _ h h' := ⟨(depthMotion schema treat).trans _ _ _ h.1 h'.1, h'.2 ∘ h.2⟩
  depth _ _ h := h.1
  idle _ _ _ _ _ _ _ := ⟨rfl, id⟩
  register _ _ helement := ⟨rfl, fun h => List.forall_mem_cons.mpr ⟨helement, h⟩⟩
  bind _ _ _ _ _ := ⟨rfl, id⟩
  joinImplicitly _ _ _ _ _ _ _ _ _ hopened _ := ⟨fill_length _ hopened, id⟩
  resolve _ _ _ h := h
  nest _ _ h := ⟨(depthMotion schema treat).nest _ _ h.1, h.2⟩
  openSpace context place levels hopen :=
    ⟨(depthMotion schema treat).openSpace context place levels hopen, id⟩
  declare _ _ _ _ := ⟨rfl, id⟩
  fill _ _ _ _ hopened _ := ⟨fill_length _ hopened, id⟩
  select _ _ := ⟨rfl, id⟩

end Interpretation

/-- What a statement mentions is admitted, and it is bound in one of its spaces. -/
theorem interpretPhrase_admitted {phrase : Phrase.Statement} {schema : Schema} {meaning : Meaning}
    {treat : DottedName → Prop} (htreat : phrase.Meets (Step.treating treat))
    (h : interpretPhrase phrase schema = .ok meaning) :
    ∀ element ∈ meaning.statement.elements, element.Admitted schema treat
      ∧ element.unwrapped ∈ meaning.statement.boundElements := by
  unfold interpretPhrase at h
  split at h
  · rename_i statement context hrun
    cases h
    have hplain : False → phrase.Plain := False.elim
    have hbuilds : Step.Ends schema .empty (Step.statement phrase) (BuiltStatement schema False) :=
      Step.statement_builds phrase hplain
    have hbuilt := hbuilds statement context hrun
    have hmoves : Step.Moves schema False (AdmitsAcross schema treat) .empty
        (Step.statement phrase) :=
      Step.statement_moves (admissionMotion schema treat) (admissionMotion schema treat).leaving phrase
        htreat
    obtain ⟨-, hadmitted⟩ := hmoves.ends statement context hrun
    intro element helement
    obtain ⟨hregistered, hbound⟩ := hbuilt.reached helement
    exact ⟨hadmitted (fun _ hmem => by cases hmem) element hregistered, hbound⟩
  · cases h

/-! ## Parts -/

namespace Splitting

/-- Nothing that the query mentions is over a polymorphic name. -/
def Query.Mapped (query : Query) : Prop :=
  ∀ element ∈ query.select.elements, element.isPolymorphic = false

/-- Only roots of the query are over polymorphic names. -/
def Query.PolymorphicAtRoots (query : Query) : Prop :=
  ∀ element ∈ query.select.elements, element.isPolymorphic = true → element ∈ query.select.roots

theorem isPolymorphic_iff {element : FromElement} :
    element.isPolymorphic = true ↔ (PolymorphicRoot.ofElement? element).isSome = true := by
  unfold PolymorphicRoot.ofElement? FromElement.isPolymorphic
  cases element.type <;> simp [TypeDescriptor.isPolymorphic]

/-- Without polymorphic roots, a query whose polymorphic elements are roots has none. -/
theorem mapped_iff_of_whole {query : Query} (h : query.polymorphicRoots = []) :
    query.Mapped ↔ query.PolymorphicAtRoots := by
  constructor
  · intro hmapped element helement hpolymorphic
    cases (hmapped element helement).symm.trans hpolymorphic
  · intro hroots element helement
    refine Bool.eq_false_iff.mpr fun hpolymorphic => ?_
    obtain ⟨root, hroot⟩ := Option.isSome_iff_exists.mp (isPolymorphic_iff.mp hpolymorphic)
    have hmem : root ∈ query.polymorphicRoots :=
      List.mem_filterMap.mpr ⟨element, hroots element helement hpolymorphic, hroot⟩
    rw [h] at hmem
    cases hmem

/-- A copy for the first polymorphic root has polymorphic elements elsewhere if the query has. -/
theorem Copied.polymorphicAtRoots {query : Query} {first : PolymorphicRoot}
    {rest : List PolymorphicRoot} {entity : Entity} {start : Nat} {number : Nat → Nat}
    {outcome : Query × Nat} (h : Copied query ⟨first.uid, entity⟩ start number outcome)
    (hquery : query.Splittable) (hroots : query.polymorphicRoots = first :: rest) :
    outcome.1.PolymorphicAtRoots ↔ query.PolymorphicAtRoots := by
  have hpolymorphic : ∀ element : FromElement,
      (element.mapBinding (Rebinding.change ⟨first.uid, entity⟩ number)).isPolymorphic = true
        ↔ element.uid ≠ first.uid ∧ element.isPolymorphic = true := by
    intro element
    rw [isPolymorphic_iff, isPolymorphic_iff, ofElement?_change]
    by_cases hsame : element.uid = first.uid
    · simp [hsame]
    · simp [hsame]
  -- Copies are told apart by their numbers, so that a copy is a root if its original is.
  have hroot : ∀ element ∈ query.select.elements,
      element.mapBinding (Rebinding.change ⟨first.uid, entity⟩ number) ∈ outcome.1.select.roots
        ↔ element ∈ query.select.roots := by
    intro element helement
    rw [h.select, roots_rebuilt, List.mem_map]
    constructor
    · rintro ⟨root, hmem, hsame⟩
      have huid := congrArg FromElement.uid hsame
      rw [uid_change, uid_change] at huid
      have hrootElement := roots_subset_elements _ hmem
      have hnumber := h.injective (Query.mem_numbers.mpr ⟨root, hrootElement, rfl⟩)
        (Query.mem_numbers.mpr ⟨element, helement, rfl⟩) huid
      rw [← hquery.numbered root hrootElement element helement hnumber]
      exact hmem
    · exact fun hmem => ⟨element, hmem, rfl⟩
  have hfirst : first ∈ query.polymorphicRoots := hroots ▸ List.mem_cons_self
  obtain ⟨root, hmem, hfound⟩ := List.mem_filterMap.mp hfirst
  constructor
  · intro hcopy element helement hname
    by_cases hsame : element.uid = first.uid
    · rw [ofElement?_uid hfound] at hsame
      rw [hquery.numbered element helement root (roots_subset_elements _ hmem) hsame]
      exact hmem
    · refine (hroot element helement).mp (hcopy _ ?_ ((hpolymorphic element).mpr ⟨hsame, hname⟩))
      rw [h.elements]
      exact List.mem_map_of_mem helement
  · intro horiginal copied hcopied hname
    rw [h.elements] at hcopied
    obtain ⟨element, helement, rfl⟩ := List.mem_map.mp hcopied
    exact (hroot element helement).mpr
      (horiginal element helement ((hpolymorphic element).mp hname).2)

theorem mem_copies {query copied : Query} {uid : Nat} {entities : List Entity} {start : Nat}
    (h : copied ∈ query.copies uid entities start) :
    ∃ entity later, copied = (query.copy ⟨uid, entity⟩ later).1 := by
  induction entities generalizing start with
  | nil => cases h
  | cons entity entities ih =>
    rcases List.mem_cons.mp h with rfl | hrest
    · exact ⟨entity, start, rfl⟩
    · exact ih hrest

/-- Parts without polymorphic elements are those of a query that has them at its roots only. The
induction is on the number of roots that are left to be replaced. -/
theorem splitRoots_mapped_iff {count : Nat} {query : Query} (hquery : query.Splittable)
    (hcount : query.polymorphicRoots.length = count) :
    ∀ part ∈ Query.splitRoots count query, part.Mapped ↔ query.PolymorphicAtRoots := by
  induction count generalizing query with
  | zero =>
    intro part hpart
    rw [List.mem_singleton.mp hpart]
    exact mapped_iff_of_whole (List.eq_nil_of_length_eq_zero hcount)
  | succ count ih =>
    obtain ⟨first, rest, hroots⟩ :=
      List.exists_cons_of_ne_nil (List.ne_nil_of_length_eq_add_one hcount)
    intro part hpart
    rw [Query.splitRoots, hroots] at hpart
    obtain ⟨copied, hcopied, hpart⟩ := List.mem_flatMap.mp hpart
    obtain ⟨entity, start, rfl⟩ := mem_copies hcopied
    obtain ⟨number, h⟩ := Query.copy_copied hquery.numbered ⟨first.uid, entity⟩ start
    have hrest : (query.copy ⟨first.uid, entity⟩ start).1.polymorphicRoots.length = count := by
      rw [h.polymorphicRoots hquery hroots, List.length_map]
      rw [hroots, List.length_cons] at hcount
      omega
    rw [ih (h.splittable hquery) hrest part hpart]
    exact h.polymorphicAtRoots hquery hroots

theorem split_mapped_iff {query : Query} (hquery : query.Splittable) :
    ∀ part ∈ query.split, part.Mapped ↔ query.PolymorphicAtRoots :=
  splitRoots_mapped_iff hquery rfl

end Splitting

/-- A polymorphic element of a statement is a root of its outermost query, or it is narrowed to a
polymorphic name or joined over an attribute of such a type. The parts of a query have polymorphic
elements exactly if the query has some that are no roots of it. -/
theorem interpretPhrase_polymorphic {phrase : Phrase.Statement} {schema : Schema}
    {meaning : Meaning} {treat : DottedName → Prop} (htreat : phrase.Meets (Step.treating treat))
    (h : interpretPhrase phrase schema = .ok meaning) :
    (∀ element ∈ meaning.statement.elements, element.isPolymorphic = true →
        meaning.statement.IsOutermostRoot element ∨ element.Slips schema treat)
      ∧ ∀ select, meaning.statement = .select select →
        ∀ part ∈ Query.split ⟨select, meaning.narrowings⟩,
          part.Mapped ↔ Query.PolymorphicAtRoots ⟨select, meaning.narrowings⟩ := by
  refine ⟨fun element helement hpolymorphic => ?_, fun select hselect => ?_⟩
  · obtain ⟨hadmitted, hbound⟩ := interpretPhrase_admitted htreat h element helement
    rcases hadmitted.slips hpolymorphic with ⟨binding, rfl⟩ | hslips
    · have hroots := (interpretPhrase_renders h).rootsMapped (.root binding) hbound
      refine .inl (hroots.resolve_left fun hmapped => ?_)
      cases hpolymorphic.symm.trans hmapped
    · exact .inr hslips
  · have hplain : False → phrase.Plain := False.elim
    obtain ⟨context, hbuilt, -⟩ := interpretPhrase_built hplain h
    rw [hselect] at hbuilt
    exact split_mapped_iff (hbuilt.splittable meaning.narrowings)

/-- The dogs, narrowed to animals. -/
def narrowedText : String := "select treat(d as Animal).name from Dog d"

/-- Some element that is no root is polymorphic, and the query has parts. -/
def hasOtherPolymorphic (query : Query) : Bool :=
  (query.select.elements.any fun element =>
      element.isPolymorphic && !query.select.roots.contains element)
    && !query.split.isEmpty

/-- What a variable is narrowed to slips in and is left in all parts. -/
theorem interpretPhrase_polymorphic_narrowed :
    ∃ written meaning select, Phrase.Statement.ofText narrowedText = .ok (.select written)
      ∧ interpretPhrase (.select written) kennel.schema = .ok meaning
      ∧ meaning.statement = .select select
      ∧ (∃ element ∈ select.elements, element.isPolymorphic = true
        ∧ element.Slips kennel.schema fun _ => True)
      ∧ ∃ part ∈ Query.split ⟨select, meaning.narrowings⟩, ¬part.Mapped := by
  have hpasses : selectPasses narrowedText kennel.schema hasOtherPolymorphic = true := by
    decide +kernel
  obtain ⟨written, meaning, select, hread, hmeaning, hselect, hother⟩ :=
    exists_of_selectPasses hpasses
  obtain ⟨hany, hparts⟩ := (Bool.and_eq_true _ _).mp hother
  obtain ⟨element, helement, hnoRoot⟩ := List.any_eq_true.mp hany
  obtain ⟨hpolymorphic, hnoRoot⟩ := (Bool.and_eq_true _ _).mp hnoRoot
  have hnone : element ∉ select.roots := by simpa using hnoRoot
  obtain ⟨hslips, hmapped⟩ := interpretPhrase_polymorphic
    (Phrase.Statement.meets Step.treating_always (.select written)) hmeaning
  refine ⟨written, meaning, select, hread, hmeaning, hselect, ⟨element, helement, hpolymorphic, ?_⟩,
    ?_⟩
  · rw [hselect] at hslips
    refine (hslips element helement hpolymorphic).resolve_left ?_
    rintro ⟨query, hquery, hroot⟩
    cases hquery
    exact hnone hroot
  · obtain ⟨part, hpart⟩ := List.exists_mem_of_ne_nil _ (by simpa using hparts)
    refine ⟨part, hpart, fun h => hnone ?_⟩
    exact (hmapped select hselect part hpart).mp h element helement hpolymorphic

end EntityQuery

import EntityQuery.Proofs.CopiedElements
import EntityQuery.Proofs.RebuiltLeaves
import EntityQuery.Splitting.Split
import Mathlib.Data.Finset.Card
import Mathlib.Order.Interval.Finset.Nat

/-!
# Copied queries

The copy of a query is the query built anew with other numbers and one other type. Its numbers are
those from a start on, as many as the query has, so that copies of a query with different starts
share numbers only where these ranges meet.

* `Query.numbers`: the numbers of the elements that a query mentions.
* `Query.Numbered`: the elements of a query are told apart by their numbers.
* `Copied`, `Query.copy_copied`: what a copy is.
-/

namespace EntityQuery.Splitting

open Resolved (Select Leaf Carries)

namespace Query

/-- The numbers of the elements that the query mentions. -/
def numbers (query : Query) : Finset Nat := (query.select.elements.map FromElement.uid).toFinset

/-- The elements of the query are told apart by their numbers. -/
def Numbered (query : Query) : Prop :=
  ∀ element ∈ query.select.elements, ∀ other ∈ query.select.elements,
    element.uid = other.uid → element = other

theorem mem_numbers {query : Query} {uid : Nat} :
    uid ∈ query.numbers ↔ ∃ element ∈ query.select.elements, element.uid = uid := by
  simp [numbers]

end Query

/-- What an element was reached by is mentioned with it. -/
theorem elements_closed {select : Select} {element : FromElement}
    (h : element ∈ select.elements) : element.chain ⊆ select.elements := by
  obtain ⟨leaf, hleaf, hchain⟩ := List.mem_flatMap.mp h
  intro part hpart
  refine List.mem_flatMap.mpr ⟨leaf, hleaf, ?_⟩
  cases leaf with
  | element bound => exact FromElement.chain_subset hchain hpart
  | literal token => cases hchain
  | parameter written => cases hchain

/-- An element that is mentioned was handed over or is on the way to one that was. -/
theorem exists_leaf_of_mem {select : Select} {element : FromElement}
    (h : element ∈ select.elements) :
    ∃ bound, Leaf.element bound ∈ select.leaves ∧ element ∈ bound.chain := by
  obtain ⟨leaf, hleaf, hchain⟩ := List.mem_flatMap.mp h
  cases leaf with
  | element bound => exact ⟨bound, hleaf, hchain⟩
  | literal token => cases hchain
  | parameter written => cases hchain

theorem mem_elements_of_leaf {select : Select} {bound : FromElement}
    (h : Leaf.element bound ∈ select.leaves) : bound ∈ select.elements :=
  List.mem_flatMap.mpr ⟨.element bound, h, bound.mem_chain_self⟩

/-- The binding with another number and, for one element, another type. -/
def Rebinding.change (rebinding : Rebinding) (number : Nat → Nat) (binding : Binding) : Binding :=
  { binding with uid := number binding.uid, type := rebinding.type binding }

/-- What is known of the copy of a query, with the number that the next copy may start from. -/
structure Copied (query : Query) (rebinding : Rebinding) (start : Nat) (number : Nat → Nat)
    (outcome : Query × Nat) : Prop where
  select : outcome.1.select
    = query.select.rebuilt true (FromElement.mapBinding (rebinding.change number))
  injective : Set.InjOn number query.numbers
  image : query.numbers.image number = Finset.Ico start (start + query.numbers.card)
  next : outcome.2 = start + query.numbers.card
  /-- The marks of an element are taken along. -/
  marks : ∀ uid ∈ query.numbers,
    outcome.1.narrowings.of (number uid) = query.narrowings.of uid

section

variable {rebinding : Rebinding} {marks : Narrowings} {elements : List FromElement} {start : Nat}
  {state : Copying}

theorem Copying.Good.empty : Copying.Good rebinding marks elements start { nextUid := start } where
  keys := List.nodup_nil
  next := rfl
  numbers := rfl
  known := fun _ h => by cases h
  marks := fun _ h => by cases h
  bounded := fun _ h => by cases h

theorem Copying.Good.number_eq (h : state.Good rebinding marks elements start)
    {known : CopiedElement} (hknown : known ∈ state.copied) :
    state.number known.uid = known.copy.uid := by
  cases hfind : state.copied.find? fun other => other.uid == known.uid with
  | none => exact absurd (beq_self_eq_true known.uid) (List.find?_eq_none.mp hfind known hknown)
  | some other =>
    have hsame : other.uid = known.uid := by simpa using List.find?_some hfind
    have hself := List.inj_on_of_nodup_map h.keys (List.mem_of_find?_eq_some hfind) hknown hsame
    rw [Copying.number, hfind, hself]
    rfl

theorem Copying.Good.map_number (h : state.Good rebinding marks elements start) :
    state.keys.map state.number = (List.range' start state.copied.length).reverse := by
  rw [← h.numbers, List.reverse_reverse, Copying.keys, List.map_map]
  exact List.map_congr_left fun known hknown => h.number_eq hknown

end

namespace Query

/-- The copy of a query whose elements are told apart by their numbers. -/
theorem copy_copied {query : Query} (hnumbered : query.Numbered) (rebinding : Rebinding)
    (start : Nat) : ∃ number, Copied query rebinding start number (query.copy rebinding start) := by
  have hrecords : (copyLaw rebinding query.narrowings query.select.elements start).Records
      (rebinding.element query.narrowings) :=
    copyLaw_records hnumbered fun element hmem => elements_closed hmem
  have hcarries : Carries (copyLaw rebinding query.narrowings query.select.elements start)
      query.select.leaves
      (query.select.traverse (Resolved.replacing true (rebinding.element query.narrowings)))
      fun replace => query.select.rebuilt true replace :=
    Select.carries hrecords query.select
  obtain ⟨hgood, -, hgives, hvalue⟩ :=
    hcarries (fun element hmem => mem_elements_of_leaf hmem) { nextUid := start } .empty
  let final := ((query.select.traverse
    (Resolved.replacing true (rebinding.element query.narrowings))).run { nextUid := start }).2
  have hkeys : ∀ element ∈ query.select.elements, element.uid ∈ final.keys := by
    intro element hmem
    obtain ⟨bound, hleaf, hchain⟩ := exists_leaf_of_mem hmem
    obtain ⟨copy, hcopy⟩ := hgives bound hleaf
    exact hcopy.1 element hchain
  have hnumbers : query.numbers = final.keys.toFinset := by
    ext uid
    rw [mem_numbers, List.mem_toFinset]
    constructor
    · rintro ⟨element, hmem, rfl⟩
      exact hkeys element hmem
    · intro hkey
      obtain ⟨known, hknown, rfl⟩ := List.mem_map.mp hkey
      obtain ⟨element, hmem, hsame, -⟩ := hgood.known known hknown
      exact ⟨element, hmem, hsame⟩
  have hcard : query.numbers.card = final.copied.length := by
    rw [hnumbers, List.toFinset_card_of_nodup hgood.keys, Copying.keys, List.length_map]
  have hmap : final.keys.map final.number = (List.range' start final.copied.length).reverse :=
    hgood.map_number
  refine ⟨final.number, ?_, ?_, ?_, ?_, ?_⟩
  · refine hvalue final (.refl final) _ fun element hleaf => ?_
    obtain ⟨copy, hcopy⟩ := hgives element hleaf
    exact ⟨hcopy.1, rfl⟩
  · have hnodup : (final.keys.map final.number).Nodup := by
      rw [hmap, List.nodup_reverse]
      exact List.nodup_range'
    intro uid huid other hother hsame
    rw [hnumbers, List.coe_toFinset] at huid hother
    exact List.inj_on_of_nodup_map hnodup huid hother hsame
  · rw [hcard, hnumbers]
    ext uid
    rw [Finset.mem_image, Finset.mem_Ico]
    have hmem : uid ∈ final.keys.map final.number
        ↔ start ≤ uid ∧ uid < start + final.copied.length := by
      rw [hmap, List.mem_reverse, List.mem_range'_1]
    rw [← hmem, List.mem_map]
    simp only [List.mem_toFinset]
  · rw [hcard]
    exact hgood.next
  · intro uid huid
    rw [hnumbers, List.mem_toFinset] at huid
    obtain ⟨known, hknown, rfl⟩ := List.mem_map.mp huid
    rw [hgood.number_eq hknown]
    exact hgood.marks known hknown

end Query

/-! ## Queries that can be split -/

/-- What a query needs to be split: its elements, and among them its roots, are told apart by their
numbers. -/
structure Query.Splittable (query : Query) : Prop where
  numbered : query.Numbered
  apart : (query.select.roots.map FromElement.uid).Nodup

/-- A root under another number. -/
def PolymorphicRoot.renumbered (number : Nat → Nat) (root : PolymorphicRoot) : PolymorphicRoot :=
  ⟨number root.uid, root.polymorphic⟩

theorem roots_subset_elements (select : Select) : select.roots ⊆ select.elements := by
  obtain ⟨spaces, distinct, selections, restriction, order, limit, offset⟩ := select
  intro root hroot
  obtain ⟨⟨first, joins⟩, hspace, rfl⟩ := List.mem_map.mp hroot
  have hleaf : Leaf.element first ∈ Resolved.spaceLeaves spaces := by
    clear hroot
    change Resolved.Space.mk first joins ∈ spaces at hspace
    induction spaces with
    | nil => cases hspace
    | cons space spaces ih =>
      rcases List.mem_cons.mp hspace with rfl | hspace
      · exact List.mem_append_left _ List.mem_cons_self
      · exact List.mem_append_right _ (ih hspace)
  refine mem_elements_of_leaf ?_
  simp only [Select.leaves, List.mem_append]
  exact .inl (.inl (.inl (.inl (.inl hleaf))))

theorem roots_rebuilt (retypes : Bool) (visit : FromElement → FromElement) (select : Select) :
    (select.rebuilt retypes visit).roots = select.roots.map visit := by
  obtain ⟨spaces, distinct, selections, restriction, order, limit, offset⟩ := select
  rw [Select.rebuilt_mk]
  change (spaces.map _).map Resolved.Space.root = (spaces.map Resolved.Space.root).map visit
  rw [List.map_map, List.map_map]
  refine List.map_congr_left fun space _ => ?_
  obtain ⟨root, joins⟩ := space
  rw [Function.comp_apply, Resolved.Space.rebuilt_mk]
  rfl

theorem ofElement?_uid {element : FromElement} {root : PolymorphicRoot}
    (h : PolymorphicRoot.ofElement? element = some root) : root.uid = element.uid := by
  unfold PolymorphicRoot.ofElement? at h
  split at h
  · cases h
    rfl
  · cases h

/-- The copied root is polymorphic no more; all others are what they were, under other numbers. -/
theorem ofElement?_change (rebinding : Rebinding) (number : Nat → Nat) (element : FromElement) :
    PolymorphicRoot.ofElement? (element.mapBinding (rebinding.change number))
      = if element.uid = rebinding.uid then none
        else (PolymorphicRoot.ofElement? element).map (PolymorphicRoot.renumbered number) := by
  have htype : (element.mapBinding (rebinding.change number)).type
      = if element.uid = rebinding.uid then .entity rebinding.entity else element.type := by
    rw [FromElement.type, FromElement.binding_mapBinding]
    rfl
  have huid : (element.mapBinding (rebinding.change number)).uid = number element.uid := by
    rw [FromElement.uid, FromElement.binding_mapBinding]
    rfl
  rw [PolymorphicRoot.ofElement?, htype, huid]
  by_cases hsame : element.uid = rebinding.uid
  · rw [if_pos hsame, if_pos hsame]
  · rw [if_neg hsame, if_neg hsame, PolymorphicRoot.ofElement?]
    cases element.type <;> rfl

/-- The first polymorphic root is the one that is replaced. -/
theorem filterMap_change {roots : List FromElement} {first : PolymorphicRoot}
    {rest : List PolymorphicRoot} (hapart : (roots.map FromElement.uid).Nodup)
    (h : roots.filterMap PolymorphicRoot.ofElement? = first :: rest) (entity : Entity)
    (number : Nat → Nat) :
    (roots.map (FromElement.mapBinding (Rebinding.change ⟨first.uid, entity⟩ number))).filterMap
        PolymorphicRoot.ofElement?
      = rest.map (PolymorphicRoot.renumbered number) := by
  have hother : ∀ roots : List FromElement, first.uid ∉ roots.map FromElement.uid →
      (roots.map (FromElement.mapBinding (Rebinding.change ⟨first.uid, entity⟩ number))).filterMap
          PolymorphicRoot.ofElement?
        = (roots.filterMap PolymorphicRoot.ofElement?).map (PolymorphicRoot.renumbered number) := by
    intro roots hnone
    rw [List.filterMap_map, List.map_filterMap]
    refine List.filterMap_congr fun root hroot => ?_
    rw [Function.comp_apply, ofElement?_change, if_neg]
    exact fun hsame => hnone (List.mem_map.mpr ⟨root, hroot, hsame⟩)
  induction roots with
  | nil => cases h
  | cons root roots ih =>
    obtain ⟨hnew, hapart⟩ := List.nodup_cons.mp hapart
    rw [List.map_cons, List.filterMap_cons, ofElement?_change]
    cases hroot : PolymorphicRoot.ofElement? root with
    | none =>
      rw [List.filterMap_cons_none hroot] at h
      have hfirst : first.uid ∈ roots.map FromElement.uid := by
        have hmem : first ∈ roots.filterMap PolymorphicRoot.ofElement? := h ▸ List.mem_cons_self
        obtain ⟨element, helement, hfound⟩ := List.mem_filterMap.mp hmem
        exact List.mem_map.mpr ⟨element, helement, (ofElement?_uid hfound).symm⟩
      rw [if_neg fun hsame : root.uid = first.uid => hnew (hsame ▸ hfirst)]
      exact ih hapart h
    | some found =>
      rw [List.filterMap_cons_some hroot] at h
      obtain ⟨rfl, rfl⟩ := List.cons.inj h
      have hsame : root.uid = found.uid := (ofElement?_uid hroot).symm
      rw [if_pos hsame]
      exact hother roots (hsame ▸ hnew)

namespace Copied

variable {query : Query} {rebinding : Rebinding} {start : Nat} {number : Nat → Nat}
  {outcome : Query × Nat}

theorem elements (h : Copied query rebinding start number outcome) :
    outcome.1.select.elements
      = query.select.elements.map (FromElement.mapBinding (rebinding.change number)) := by
  rw [h.select, Select.elements_rebuilt]

theorem uid_change (rebinding : Rebinding) (number : Nat → Nat) (element : FromElement) :
    (element.mapBinding (rebinding.change number)).uid = number element.uid := by
  rw [FromElement.uid, FromElement.binding_mapBinding]
  rfl

theorem numbers (h : Copied query rebinding start number outcome) :
    outcome.1.numbers = Finset.Ico start (start + query.numbers.card) := by
  rw [← h.image]
  ext uid
  rw [Query.mem_numbers, h.elements, Finset.mem_image]
  constructor
  · rintro ⟨element, hmem, rfl⟩
    obtain ⟨original, horiginal, rfl⟩ := List.mem_map.mp hmem
    rw [uid_change]
    exact ⟨original.uid, Query.mem_numbers.mpr ⟨original, horiginal, rfl⟩, rfl⟩
  · rintro ⟨other, hother, rfl⟩
    obtain ⟨original, horiginal, rfl⟩ := Query.mem_numbers.mp hother
    exact ⟨_, List.mem_map.mpr ⟨original, horiginal, rfl⟩, uid_change rebinding number original⟩

/-- A copy can be split like what it was copied from. -/
theorem splittable (h : Copied query rebinding start number outcome) (hquery : query.Splittable) :
    outcome.1.Splittable where
  numbered := by
    intro element hmem other hother hsame
    rw [h.elements] at hmem hother
    obtain ⟨first, hfirst, rfl⟩ := List.mem_map.mp hmem
    obtain ⟨second, hsecond, rfl⟩ := List.mem_map.mp hother
    rw [uid_change, uid_change] at hsame
    have huid := h.injective (Query.mem_numbers.mpr ⟨first, hfirst, rfl⟩)
      (Query.mem_numbers.mpr ⟨second, hsecond, rfl⟩) hsame
    rw [hquery.numbered first hfirst second hsecond huid]
  apart := by
    have huids : outcome.1.select.roots.map FromElement.uid
        = (query.select.roots.map FromElement.uid).map number := by
      rw [h.select, roots_rebuilt, List.map_map, List.map_map]
      exact List.map_congr_left fun root _ => uid_change rebinding number root
    rw [huids]
    refine List.Nodup.map_on (fun uid huid other hother hsame => ?_) hquery.apart
    obtain ⟨first, hfirst, rfl⟩ := List.mem_map.mp huid
    obtain ⟨second, hsecond, rfl⟩ := List.mem_map.mp hother
    exact h.injective
      (Query.mem_numbers.mpr ⟨first, roots_subset_elements _ hfirst, rfl⟩)
      (Query.mem_numbers.mpr ⟨second, roots_subset_elements _ hsecond, rfl⟩) hsame

/-- The copy for the first polymorphic root has all others. -/
theorem polymorphicRoots {first : PolymorphicRoot} {rest : List PolymorphicRoot} {entity : Entity}
    (h : Copied query ⟨first.uid, entity⟩ start number outcome) (hquery : query.Splittable)
    (hroots : query.polymorphicRoots = first :: rest) :
    outcome.1.polymorphicRoots = rest.map (PolymorphicRoot.renumbered number) := by
  rw [Query.polymorphicRoots, h.select, roots_rebuilt]
  exact filterMap_change hquery.apart hroots entity number

end Copied

end EntityQuery.Splitting

import EntityQuery.Proofs.NamedEntities
import EntityQuery.Proofs.RebuiltTwice
import EntityQuery.Proofs.ReplacedRoots
import EntityQuery.Proofs.SplitNumbers

/-!
# Parts as images of the split query

Splitting copies copies. Each copy gives one more root an entity and all elements other numbers, so
that a part is the query built anew once: with one implementor for each polymorphic root, and under
other numbers. The parts come in the order of the choices of implementors.

* `ImageOf`: what a part is.
* `ImageOf.copy`: a copy of an image is an image.
* `split_images`: the parts and the choices that they are made for.
-/

namespace EntityQuery

/-- The binding under another number. -/
def Binding.renumbered (number : Nat → Nat) (binding : Binding) : Binding :=
  { binding with uid := number binding.uid }

namespace Splitting

open Resolved (Select)

/-- A query is the image of another one: it has the chosen types and other numbers, and the marks of
its elements are those of the elements with the numbers that they had. -/
structure ImageOf (query : Query) (choice : Choice) (number : Nat → Nat) (image : Query) :
    Prop where
  bijective : Set.BijOn number query.numbers image.numbers
  select : image.select = query.select.rebuilt true (FromElement.mapBinding fun binding =>
    (binding.rebound choice).renumbered number)
  marks : ∀ uid ∈ query.numbers, image.narrowings.of (number uid) = query.narrowings.of uid

variable {query : Query} {choice : Choice} {number : Nat → Nat} {image : Query}

theorem Copied.bijective {rebinding : Rebinding} {start : Nat} {outcome : Query × Nat}
    (h : Copied query rebinding start number outcome) :
    Set.BijOn number query.numbers outcome.1.numbers := by
  rw [h.numbers, ← h.image, Finset.coe_image]
  exact h.injective.bijOn_image

/-- Choosing one more entity in an image is choosing it in the query. -/
theorem change_renumbered {numbers : Set Nat} (hinjective : Set.InjOn number numbers) {uid : Nat}
    (huid : uid ∈ numbers) (entity : Entity) (later : Nat → Nat) {binding : Binding}
    (hbinding : binding.uid ∈ numbers) :
    Rebinding.change ⟨number uid, entity⟩ later ((binding.rebound choice).renumbered number)
      = (binding.rebound (choice.choose uid entity)).renumbered (later ∘ number) := by
  obtain ⟨other, aliasName, generated, type⟩ := binding
  have htype : (if number other = number uid then TypeDescriptor.entity entity
        else (Binding.rebound choice ⟨other, aliasName, generated, type⟩).type)
      = (Binding.rebound (choice.choose uid entity) ⟨other, aliasName, generated, type⟩).type := by
    by_cases hsame : other = uid
    · subst hsame
      rw [if_pos rfl, Binding.rebound, Choice.choose_self]
      rfl
    · have hne : number other ≠ number uid := fun heq => hsame (hinjective hbinding huid heq)
      rw [if_neg hne, Binding.rebound, Binding.rebound, Choice.choose_of_ne hsame]
  exact congrArg (Binding.mk (later (number other)) aliasName generated) htype

/-- A copy of an image in which one more root has an entity. -/
theorem ImageOf.copy (h : ImageOf query choice number image) (hnumbered : image.Numbered)
    {uid : Nat} (huid : uid ∈ query.numbers) (entity : Entity) (start : Nat) :
    ∃ later, Copied image ⟨number uid, entity⟩ start later (image.copy ⟨number uid, entity⟩ start)
      ∧ ImageOf query (choice.choose uid entity) (later ∘ number)
        (image.copy ⟨number uid, entity⟩ start).1 := by
  obtain ⟨later, hcopied⟩ := Query.copy_copied hnumbered ⟨number uid, entity⟩ start
  refine ⟨later, hcopied, hcopied.bijective.comp h.bijective, ?_, fun other hother => ?_⟩
  · rw [hcopied.select, h.select, Select.rebuilt_rebuilt fun _ hfalse => by cases hfalse]
    refine Select.rebuilt_congr fun bound hbound => ?_
    rw [FromElement.mapBinding_mapBinding]
    refine FromElement.mapBinding_congr fun part hpart => ?_
    have hpart : part.binding.uid ∈ query.numbers :=
      Query.mem_numbers.mpr ⟨part, elements_closed (mem_elements_of_leaf hbound) hpart, rfl⟩
    exact change_renumbered h.bijective.injOn huid entity later hpart
  · have himage : number other ∈ image.numbers := h.bijective.mapsTo hother
    rw [Function.comp_apply, hcopied.marks _ himage, h.marks other hother]

/-! ## Parts -/

/-- Every part is the image for the choice at its position, where choices are made for some
roots. -/
def PartsFor (query : Query) (choice : Choice) (roots : List PolymorphicRoot)
    (choices : List (List Entity)) (parts : List Query) : Prop :=
  List.Forall₂ (fun entities part => ∃ number,
    ImageOf query (choice.chooseAll (roots.map PolymorphicRoot.uid) entities) number part)
    choices parts

/-- The choices for some roots. -/
def rootChoices (roots : List PolymorphicRoot) : List (List Entity) :=
  tuples (roots.map fun root => root.polymorphic.implementors)

/-- The parts of the copies for some entities of a root come one copy after the other. -/
theorem copies_images {first : PolymorphicRoot} {rest : List PolymorphicRoot}
    (hfirst : first.uid ∈ query.numbers) (h : ImageOf query choice number image)
    (hsplittable : image.Splittable)
    (hroots : image.polymorphicRoots = (first :: rest).map (PolymorphicRoot.renumbered number))
    (hrest : ∀ {choice : Choice} {number : Nat → Nat} {image : Query},
      ImageOf query choice number image → image.Splittable →
      image.polymorphicRoots = rest.map (PolymorphicRoot.renumbered number) →
      PartsFor query choice rest (rootChoices rest) (Query.splitRoots rest.length image))
    (entities : List Entity) (start : Nat) :
    PartsFor query choice (first :: rest)
      (entities.flatMap fun entity => (rootChoices rest).map fun others => entity :: others)
      ((image.copies (number first.uid) entities start).flatMap
        (Query.splitRoots rest.length)) := by
  induction entities generalizing start with
  | nil => exact .nil
  | cons entity entities ih =>
    obtain ⟨later, hcopied, himage⟩ := h.copy hsplittable.numbered hfirst entity start
    have hcopyRoots : (image.copy ⟨number first.uid, entity⟩ start).1.polymorphicRoots
        = rest.map (PolymorphicRoot.renumbered (later ∘ number)) := by
      rw [hcopied.polymorphicRoots hsplittable hroots, List.map_map]
      rfl
    have hhead : PartsFor query choice (first :: rest)
        ((rootChoices rest).map fun others => entity :: others)
        (Query.splitRoots rest.length (image.copy ⟨number first.uid, entity⟩ start).1) := by
      rw [PartsFor, List.forall₂_map_left_iff]
      exact hrest himage (hcopied.splittable hsplittable) hcopyRoots
    rw [Query.copies, List.flatMap_cons, List.flatMap_cons]
    exact List.rel_append hhead (ih _)

/-- The parts of an image with some polymorphic roots left. The induction is on these roots. -/
theorem splitRoots_images {roots : List PolymorphicRoot}
    (hmem : ∀ root ∈ roots, root.uid ∈ query.numbers) (h : ImageOf query choice number image)
    (hsplittable : image.Splittable)
    (hroots : image.polymorphicRoots = roots.map (PolymorphicRoot.renumbered number)) :
    PartsFor query choice roots (rootChoices roots) (Query.splitRoots roots.length image) := by
  induction roots generalizing choice number image with
  | nil => exact .cons ⟨number, h⟩ .nil
  | cons first rest ih =>
    obtain ⟨hfirst, hrest⟩ := List.forall_mem_cons.mp hmem
    rw [List.length_cons, Query.splitRoots, hroots]
    exact copies_images hfirst h hsplittable hroots (fun h' => ih hrest h') _ _

/-- A query that is itself when it is built anew is its own image. -/
theorem ImageOf.refl (hself : query.select.rebuilt true id = query.select) :
    ImageOf query Choice.none id query where
  bijective := Set.bijOn_id _
  select := by
    have hidentity : (FromElement.mapBinding fun binding =>
        (binding.rebound Choice.none).renumbered id) = id :=
      funext fun element => element.rebound_none
    rw [hidentity, hself]
  marks := fun _ _ => rfl

/-- The parts of a query are its images for all choices of implementors, in their order. -/
theorem split_images (hsplittable : query.Splittable)
    (hself : query.select.rebuilt true id = query.select) :
    PartsFor query Choice.none query.polymorphicRoots (rootChoices query.polymorphicRoots)
      query.split := by
  refine splitRoots_images (fun root hroot => ?_) (.refl hself) hsplittable ?_
  · obtain ⟨element, helement, hfound⟩ := List.mem_filterMap.mp hroot
    rw [ofElement?_uid hfound]
    exact Query.mem_numbers.mpr ⟨element, roots_subset_elements _ helement, rfl⟩
  · have hidentity : PolymorphicRoot.renumbered id = id := rfl
    rw [hidentity, List.map_id]

end Splitting
end EntityQuery

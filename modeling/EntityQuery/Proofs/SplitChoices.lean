import EntityQuery.Proofs.PolymorphicElements
import EntityQuery.Proofs.RetypedTrees
import EntityQuery.Proofs.SplitImages
import EntityQuery.Proofs.WellTyped

/-!
# What is chosen for a part

Every part of a query that has a meaning is its image for one choice of implementors. A choice gives
each root over a polymorphic name one of the implementors and leaves all other elements with their
types, since elements are told apart by their numbers.

* `Choice.chooseAll_of_mem`, `Choice.chooseAll_of_not_mem`: what is chosen for a number.
* `Query.chosen_cases`: what is chosen for an element.
* `FromElement.image`: the image of an element.
* `interpretPhrase_parts`: the parts as images.
-/

namespace EntityQuery

open Interpretation Resolved Splitting

namespace Choice

theorem chooseAll_of_not_mem {choice : Choice} {uids : List Nat} {entities : List Entity} {uid : Nat}
    (h : uid ∉ uids) : choice.chooseAll uids entities uid = choice uid := by
  induction uids generalizing choice entities with
  | nil => rfl
  | cons first rest ih =>
    cases entities with
    | nil => rfl
    | cons entity entities =>
      obtain ⟨hfirst, hrest⟩ := not_or.mp (List.mem_cons.not.mp h)
      rw [chooseAll, ih hrest, choose_of_ne hfirst]

/-- Each polymorphic root gets one of its implementors. -/
theorem chooseAll_of_mem (choice : Choice) {roots : List PolymorphicRoot}
    {entities : List Entity} (hentities : entities ∈ rootChoices roots) {uid : Nat}
    (h : uid ∈ roots.map PolymorphicRoot.uid) :
    ∃ root ∈ roots, root.uid = uid ∧ ∃ entity ∈ root.polymorphic.implementors,
      choice.chooseAll (roots.map PolymorphicRoot.uid) entities uid = some entity := by
  induction roots generalizing choice entities with
  | nil => cases h
  | cons first rest ih =>
    obtain ⟨entity, others, rfl, hentity, hothers⟩ := tuples_cons_mem hentities
    by_cases hlater : uid ∈ rest.map PolymorphicRoot.uid
    · obtain ⟨root, hroot, hsame, hchosen⟩ :=
        ih (choice.choose first.uid entity) hothers hlater
      exact ⟨root, List.mem_cons_of_mem _ hroot, hsame, hchosen⟩
    · have hfirst : uid = first.uid := (List.mem_cons.mp h).resolve_right hlater
      refine ⟨first, List.mem_cons_self, hfirst.symm, entity, hentity, ?_⟩
      rw [List.map_cons, chooseAll, chooseAll_of_not_mem hlater, hfirst, choose_self]

end Choice

namespace Splitting

variable {query : Query}

theorem PolymorphicRoot.ofElement?_polymorphic {element : FromElement} {root : PolymorphicRoot}
    (h : PolymorphicRoot.ofElement? element = some root) :
    element.type = .polymorphic root.polymorphic := by
  unfold PolymorphicRoot.ofElement? at h
  split at h
  · rename_i polymorphic htype
    cases h
    exact htype
  · cases h

namespace Query

/-- One entity for each polymorphic root. -/
def chosen (query : Query) (entities : List Entity) : Choice :=
  Choice.none.chooseAll (query.polymorphicRoots.map PolymorphicRoot.uid) entities

/-- A root over a polymorphic name gets one of the implementors, any other element nothing. -/
theorem chosen_cases (hnumbered : query.Numbered) {entities : List Entity}
    (hentities : entities ∈ rootChoices query.polymorphicRoots) {element : FromElement}
    (helement : element ∈ query.select.elements) :
    (∃ polymorphic, element ∈ query.select.roots ∧ element.type = .polymorphic polymorphic
        ∧ ∃ entity ∈ polymorphic.implementors, query.chosen entities element.uid = some entity)
      ∨ (element ∈ query.select.roots → element.isPolymorphic = false)
        ∧ query.chosen entities element.uid = none := by
  by_cases hmem : element.uid ∈ query.polymorphicRoots.map PolymorphicRoot.uid
  · obtain ⟨root, hroot, hsame, entity, hentity, hchosen⟩ :=
      Choice.chooseAll_of_mem Choice.none hentities hmem
    obtain ⟨bound, hbound, hfound⟩ := List.mem_filterMap.mp hroot
    have huid : bound.uid = element.uid := (ofElement?_uid hfound).symm.trans hsame
    have heq : bound = element :=
      hnumbered bound (roots_subset_elements _ hbound) element helement huid
    subst heq
    exact .inl ⟨root.polymorphic, hbound, PolymorphicRoot.ofElement?_polymorphic hfound, entity,
      hentity, hchosen⟩
  · refine .inr ⟨fun hroot => ?_, Choice.chooseAll_of_not_mem hmem⟩
    cases hpolymorphic : element.isPolymorphic with
    | false => rfl
    | true =>
      obtain ⟨root, hfound⟩ := Option.isSome_iff_exists.mp (isPolymorphic_iff.mp hpolymorphic)
      refine absurd ?_ hmem
      exact List.mem_map.mpr
        ⟨root, List.mem_filterMap.mpr ⟨element, hroot, hfound⟩, ofElement?_uid hfound⟩

end Query
end Splitting

/-! ## Images of elements -/

namespace FromElement

variable {choice : Choice} {number : Nat → Nat} {element : FromElement}

/-- The element with the chosen types, under other numbers. -/
def image (choice : Choice) (number : Nat → Nat) (element : FromElement) : FromElement :=
  element.mapBinding fun binding => (binding.rebound choice).renumbered number

@[simp] theorem uid_image : (element.image choice number).uid = number element.uid := by
  rw [uid, image, binding_mapBinding]
  rfl

@[simp] theorem aliasName_image : (element.image choice number).aliasName = element.aliasName := by
  rw [aliasName, image, binding_mapBinding]
  rfl

@[simp] theorem generated_image :
    (element.image choice number).binding.generated = element.binding.generated := by
  rw [image, binding_mapBinding]
  rfl

@[simp] theorem image_join? : (element.image choice number).join? = element.join? := join?_mapBinding

theorem chain_image :
    (element.image choice number).chain = element.chain.map (FromElement.image choice number) :=
  chain_mapBinding

theorem type_image : (element.image choice number).type
    = ((choice element.uid).map TypeDescriptor.entity).getD element.type := by
  rw [type, image, binding_mapBinding]
  rfl

/-- An element without an entity of its own keeps its type. -/
theorem type_image_of_none (h : choice element.uid = none) :
    (element.image choice number).type = element.type := by
  rw [type_image, h]
  rfl

end FromElement

/-! ## Roots -/

namespace Phrase

theorem spacesRender.isRoot {schema : Schema} {maps nested : Bool} :
    ∀ {written : List Space} {nodes : List Resolved.Space},
      spacesRender schema maps nested written nodes → ∀ node ∈ nodes, node.root.isRoot = true
  | [], _, h => by
    have hnone : _ = [] := h
    subst hnone
    exact fun _ hnode => by cases hnode
  | .mk root joins :: rest, _, h => by
    obtain ⟨node, others, rfl, ⟨element, joined, rfl, hroot, -, -⟩, hrest⟩ := h
    obtain ⟨binding, entity, rfl, -⟩ := hroot
    exact List.forall_mem_cons.mpr ⟨rfl, spacesRender.isRoot hrest⟩

/-- The roots of a query that was built are no joins. -/
theorem Query.Renders.isRoot {schema : Schema} {maps nested : Bool} {written : Query}
    {node : Resolved.Select} (h : written.Renders schema maps nested node) :
    ∀ root ∈ node.roots, root.isRoot = true := by
  obtain ⟨select, spaces, restriction, order, limit, offset⟩ := written
  obtain ⟨_, _, _, _, _, _, _, rfl, hspaces, -⟩ := h
  intro root hroot
  obtain ⟨space, hspace, rfl⟩ := List.mem_map.mp hroot
  exact hspaces.isRoot space hspace

end Phrase

/-! ## Parts -/

section

variable {written : Phrase.Query} {schema : Schema} {meaning : Meaning} {select : Select}
  (h : interpretPhrase (.select written) schema = .ok meaning)
  (hselect : meaning.statement = .select select)
include h hselect

theorem interpretPhrase_isRoot : ∀ root ∈ select.roots, root.isRoot = true := by
  have hrenders := interpretPhrase_renders h
  rw [hselect] at hrenders
  obtain ⟨_, hsame, hrenders⟩ := hrenders
  cases hsame
  exact hrenders.isRoot

theorem interpretPhrase_holds_typing :
    select.Holds (typingRules schema meaning.narrowings) [] := by
  have hplain : False → (Phrase.Statement.select written).Plain := False.elim
  obtain ⟨context, hbuilt, hmarks⟩ := interpretPhrase_built hplain h
  have htyped := hbuilt.holds.mono (typingRules_of_built hbuilt.sound)
  rw [hselect, hmarks] at htyped
  exact htyped

/-- Building a query anew from its own elements changes nothing. -/
theorem interpretPhrase_rebuilt_id : select.rebuilt true id = select := by
  have htyped : select.Holds (typedRules schema fun bound =>
      ∀ part ∈ bound.chain, part.JoinTyped schema meaning.narrowings) [] :=
    interpretPhrase_holds_typing h hselect
  exact htyped.rebuilt_id

/-- Every part is the image of the query for one of the choices. -/
theorem interpretPhrase_parts :
    let query : Query := ⟨select, meaning.narrowings⟩
    ∀ part ∈ query.split, ∃ entities ∈ rootChoices query.polymorphicRoots, ∃ number,
      ImageOf query (query.chosen entities) number part := by
  intro query part hpart
  have himages := split_images (interpretPhrase_splittable h hselect)
    (interpretPhrase_rebuilt_id h hselect)
  obtain ⟨position, hposition, rfl⟩ := List.getElem_of_mem hpart
  have hlength := himages.length_eq
  obtain ⟨number, himage⟩ := himages.get (hlength ▸ hposition) hposition
  exact ⟨_, List.getElem_mem _, number, himage⟩

end

end EntityQuery

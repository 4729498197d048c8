import EntityQuery.Proofs.SplitChoices

/-!
# Parts as copies, one for each product

A part of a query with a polymorphic root is a copy of it. Its elements are in one-to-one
correspondence with those of the query, and it is the query with every element replaced by the
corresponding one. Only numbers differ, the types of the polymorphic roots, and types that follow
from these.

The types that the roots have in the parts are the product of the types that each root may have: its
implementors where it ranges over a polymorphic name, else its own type. The first root varies
slowest. Nothing is left to split in a part.

* `FromElement.SameKind`: an element and its counterpart.
* `Splitting.IsCopy`: a query and its copy.
* `ImageOf.isCopy`: an image under greater numbers is a copy.
* `interpretPhrase_split_copies`: the parts of a query that has a meaning.
* `FromElement.rootTypes`: the types that a root may have in a part.
* `chosenTypes_product`: the types of the roots for all choices.
* `Query.split_cons`: a query is split into the parts of its copies for the first root.
* `interpretPhrase_split_product`: the types in the parts of a query that has a meaning.
-/

namespace EntityQuery

open Interpretation Resolved Splitting

/-- The second element is of the same kind as the first one and is reached in the same way, from the
counterpart of what the first one is reached from. -/
def FromElement.SameKind (image : FromElement → FromElement) : FromElement → FromElement → Prop
  | .root _, copy => ∃ binding, copy = .root binding
  | .crossJoin _, copy => ∃ binding, copy = .crossJoin binding
  | .entityJoin _ joinType, copy => ∃ binding, copy = .entityJoin binding joinType
  | .attributeJoin _ source join, copy =>
    ∃ binding, copy = .attributeJoin binding (image source) join
  | .treated _ wrapped, copy => ∃ binding, copy = .treated binding (image wrapped)

theorem FromElement.sameKind_image (choice : Choice) (number : Nat → Nat) (element : FromElement) :
    element.SameKind (FromElement.image choice number) (element.image choice number) := by
  cases element <;> exact ⟨_, rfl⟩

namespace Splitting

/-- The second query is the first one with every element replaced by its counterpart. -/
structure IsCopy (query copy : Query) (image : FromElement → FromElement) : Prop where
  bijective : Set.BijOn image {element | element ∈ query.select.elements}
    {element | element ∈ copy.select.elements}
  kind : ∀ element ∈ query.select.elements, element.SameKind image (image element)
  aliasName : ∀ element ∈ query.select.elements, (image element).aliasName = element.aliasName
  generated : ∀ element ∈ query.select.elements,
    (image element).binding.generated = element.binding.generated
  /-- Polymorphic roots get entities that implement their names. -/
  rebound : ∀ root ∈ query.select.roots, ∀ polymorphic, root.type = .polymorphic polymorphic →
    ∃ entity ∈ polymorphic.implementors, (image root).type = .entity entity
  /-- All other elements keep their types. -/
  kept : ∀ element ∈ query.select.elements,
    (element ∈ query.select.roots → element.isPolymorphic = false) →
      (image element).type = element.type
  marks : ∀ element ∈ query.select.elements,
    copy.narrowings.of (image element).uid = query.narrowings.of element.uid
  tree : query.select.Matches image copy.select
  /-- Two mentions, sources of joins and narrowed elements included, are of one element exactly if
  they are in the query. -/
  shared : ∀ i j : Nat, copy.select.elements[i]? = copy.select.elements[j]?
    ↔ query.select.elements[i]? = query.select.elements[j]?
  /-- The elements of the copy are told apart by their numbers. -/
  numbered : copy.Numbered
  fresh : ∀ element ∈ query.select.elements, ∀ other ∈ copy.select.elements,
    element.uid < other.uid

variable {query image : Query} {entities : List Entity} {number : Nat → Nat}

namespace ImageOf

variable {choice : Choice} (h : ImageOf query choice number image)
include h

theorem elements :
    image.select.elements = query.select.elements.map (FromElement.image choice number) := by
  rw [h.select]
  exact Select.elements_rebuilt true _ query.select

variable (hnumbered : query.Numbered)
include hnumbered

/-- Elements with one number in the image have one number in the query. -/
theorem uid_injective {element other : FromElement} (helement : element ∈ query.select.elements)
    (hother : other ∈ query.select.elements)
    (huid : (element.image choice number).uid = (other.image choice number).uid) :
    element = other := by
  rw [FromElement.uid_image, FromElement.uid_image] at huid
  refine hnumbered element helement other hother (h.bijective.injOn ?_ ?_ huid)
  · exact Query.mem_numbers.mpr ⟨element, helement, rfl⟩
  · exact Query.mem_numbers.mpr ⟨other, hother, rfl⟩

theorem bijective_elements :
    Set.BijOn (FromElement.image choice number) {element | element ∈ query.select.elements}
      {element | element ∈ image.select.elements} := by
  refine ⟨fun element helement => ?_, fun element helement other hother hsame => ?_,
    fun copied hcopied => ?_⟩
  · exact h.elements ▸ List.mem_map_of_mem helement
  · exact h.uid_injective hnumbered helement hother (congrArg FromElement.uid hsame)
  · exact List.mem_map.mp (h.elements ▸ hcopied)

theorem numbered : image.Numbered := by
  intro element helement other hother huid
  rw [h.elements] at helement hother
  obtain ⟨original, horiginal, rfl⟩ := List.mem_map.mp helement
  obtain ⟨second, hsecond, rfl⟩ := List.mem_map.mp hother
  rw [h.uid_injective hnumbered horiginal hsecond huid]

/-- Positions of the image hold one element exactly if they do in the query. -/
theorem shared (i j : Nat) : image.select.elements[i]? = image.select.elements[j]?
    ↔ query.select.elements[i]? = query.select.elements[j]? := by
  rw [h.elements, List.getElem?_map, List.getElem?_map]
  constructor
  · intro hsame
    cases hi : query.select.elements[i]? with
    | none =>
      rw [hi] at hsame
      exact (Option.map_eq_none_iff.mp hsame.symm).symm
    | some element =>
      rw [hi] at hsame
      obtain ⟨other, hother, himage⟩ := Option.map_eq_some_iff.mp hsame.symm
      rw [hother, h.uid_injective hnumbered (List.mem_of_getElem? hi) (List.mem_of_getElem? hother)
        (congrArg FromElement.uid himage.symm)]
  · intro hsame
    rw [hsame]

end ImageOf

/-- An image whose numbers come after those of the query is a copy of it. -/
theorem ImageOf.isCopy (hnumbered : query.Numbered)
    (hentities : entities ∈ rootChoices query.polymorphicRoots)
    (h : ImageOf query (query.chosen entities) number image)
    (htree : query.select.Matches (FromElement.image (query.chosen entities) number) image.select)
    (hfresh : ∀ uid ∈ image.numbers, query.select.greatestUid < uid) :
    IsCopy query image (FromElement.image (query.chosen entities) number) where
  bijective := h.bijective_elements hnumbered
  kind element _ := element.sameKind_image _ _
  aliasName _ _ := FromElement.aliasName_image
  generated _ _ := FromElement.generated_image
  rebound := by
    intro root hroot polymorphic htype
    rcases Query.chosen_cases hnumbered hentities (roots_subset_elements _ hroot) with
      ⟨polymorphic', -, htype', entity, hentity, hchosen⟩ | ⟨hmapped, -⟩
    · cases htype.symm.trans htype'
      exact ⟨entity, hentity, by rw [FromElement.type_image, hchosen]; rfl⟩
    · have hpolymorphic : root.isPolymorphic = true := by
        rw [FromElement.isPolymorphic, htype]
        rfl
      cases (hmapped hroot).symm.trans hpolymorphic
  kept := by
    intro element helement hmapped
    rcases Query.chosen_cases hnumbered hentities helement with
      ⟨polymorphic, hroot, htype, -⟩ | ⟨-, hnone⟩
    · have hpolymorphic : element.isPolymorphic = true := by
        rw [FromElement.isPolymorphic, htype]
        rfl
      cases (hmapped hroot).symm.trans hpolymorphic
    · exact FromElement.type_image_of_none hnone
  marks := by
    intro element helement
    rw [FromElement.uid_image]
    exact h.marks _ (Query.mem_numbers.mpr ⟨element, helement, rfl⟩)
  tree := htree
  shared := h.shared hnumbered
  numbered := h.numbered hnumbered
  fresh := by
    intro element helement other hother
    have hle := Query.le_greatestUid (Query.mem_numbers.mpr ⟨element, helement, rfl⟩)
    have hgt := hfresh other.uid (Query.mem_numbers.mpr ⟨other, hother, rfl⟩)
    omega

end Splitting

/-- When a query that has a meaning and a polymorphic root is split, every part is a copy of it: the
same tree over elements of its own, which correspond to those of the query one to one and have
greater numbers. -/
theorem interpretPhrase_split_copies {written : Phrase.Query} {schema : Schema} {meaning : Meaning}
    {select : Select} (h : interpretPhrase (.select written) schema = .ok meaning)
    (hselect : meaning.statement = .select select)
    (hroots : Query.polymorphicRoots ⟨select, meaning.narrowings⟩ ≠ []) :
    ∀ part ∈ Query.split ⟨select, meaning.narrowings⟩,
      ∃ image, IsCopy ⟨select, meaning.narrowings⟩ part image := by
  intro part hpart
  have hsplittable := interpretPhrase_splittable h hselect
  obtain ⟨entities, hentities, number, himage⟩ := interpretPhrase_parts h hselect part hpart
  refine ⟨_, himage.isCopy hsplittable.numbered hentities ?_
    (split_fresh hsplittable hroots part hpart)⟩
  rw [himage.select]
  have htyped : select.Holds (typedRules schema fun bound =>
      ∀ part ∈ bound.chain, part.JoinTyped schema meaning.narrowings) [] :=
    interpretPhrase_holds_typing h hselect
  exact htyped.matches_rebuilt

/-- Animals that a cat is called like, beside each dog. The animal is mentioned in the selection,
narrowed, in the nested query and in the order. -/
def sharedText : String :=
  "select a.name, treat(a as Cat) from Animal a cross join Dog d "
    ++ "where exists (select 1 from Cat c where c.name = a.name) order by a.name"

/-- Both parts of a query over one root are copies of it. -/
theorem interpretPhrase_split_copies_shared :
    ∃ written meaning select, Phrase.Statement.ofText sharedText = .ok (.select written)
      ∧ interpretPhrase (.select written) kennel.schema = .ok meaning
      ∧ meaning.statement = .select select
      ∧ Query.polymorphicRoots ⟨select, meaning.narrowings⟩ ≠ []
      ∧ (Query.split ⟨select, meaning.narrowings⟩).length = 2
      ∧ ∀ part ∈ Query.split ⟨select, meaning.narrowings⟩,
        ∃ image, IsCopy ⟨select, meaning.narrowings⟩ part image := by
  have hpasses : selectPasses sharedText kennel.schema (fun query =>
      !query.polymorphicRoots.isEmpty && query.split.length == 2) = true := by decide +kernel
  obtain ⟨written, meaning, select, hread, hmeaning, hselect, htest⟩ :=
    exists_of_selectPasses hpasses
  obtain ⟨hempty, hlength⟩ := Bool.and_eq_true_iff.mp htest
  have hroots : Query.polymorphicRoots ⟨select, meaning.narrowings⟩ ≠ [] := by
    intro hnone
    rw [hnone] at hempty
    cases hempty
  exact ⟨written, meaning, select, hread, hmeaning, hselect, hroots, eq_of_beq hlength,
    interpretPhrase_split_copies hmeaning hselect hroots⟩

/-! ## Products -/

theorem tuples_singleton {α : Type} (item : α) (rest : List (List α)) :
    tuples ([item] :: rest) = (tuples rest).map fun others => item :: others := by
  rw [tuples, List.flatMap_singleton]

theorem length_tuples {α : Type} (lists : List (List α)) :
    (tuples lists).length = (lists.map List.length).prod := by
  induction lists with
  | nil => rfl
  | cons items rest ih =>
    have hsum : (items.map fun _ => (rest.map List.length).prod).sum
        = items.length * (rest.map List.length).prod := by
      rw [List.map_const', List.sum_replicate_nat]
    rw [List.map_cons, List.prod_cons, ← hsum, tuples, List.length_flatMap]
    simp only [List.length_map, ih]

/-- The types that a root may have in a part. -/
def FromElement.rootTypes (root : FromElement) : List TypeDescriptor :=
  match root.type with
  | .polymorphic polymorphic => polymorphic.implementors.map .entity
  | type => [type]

namespace Splitting

/-- The type of a root for a choice. -/
def chosenType (choice : Choice) (root : FromElement) : TypeDescriptor :=
  ((choice root.uid).map TypeDescriptor.entity).getD root.type

theorem PolymorphicRoot.ofElement?_of_polymorphic {root : FromElement} {polymorphic : Polymorphic}
    (h : root.type = .polymorphic polymorphic) :
    PolymorphicRoot.ofElement? root = some ⟨root.uid, polymorphic⟩ := by
  rw [PolymorphicRoot.ofElement?, h]

theorem uid_not_mem {roots : List FromElement} {uid : Nat}
    (h : uid ∉ roots.map FromElement.uid) :
    uid ∉ (roots.filterMap PolymorphicRoot.ofElement?).map PolymorphicRoot.uid := by
  intro hmem
  obtain ⟨root, hroot, rfl⟩ := List.mem_map.mp hmem
  obtain ⟨element, helement, hfound⟩ := List.mem_filterMap.mp hroot
  exact h (List.mem_map.mpr ⟨element, helement, (ofElement?_uid hfound).symm⟩)

/-- Over all choices of implementors, in their order, the types of the roots run through the product
of the types that each of them may have. -/
theorem chosenTypes_product {roots : List FromElement} (hapart : (roots.map FromElement.uid).Nodup)
    {choice : Choice} (hfree : ∀ root ∈ roots, choice root.uid = none) :
    (rootChoices (roots.filterMap PolymorphicRoot.ofElement?)).map (fun entities =>
        roots.map (chosenType (choice.chooseAll
          ((roots.filterMap PolymorphicRoot.ofElement?).map PolymorphicRoot.uid) entities)))
      = tuples (roots.map FromElement.rootTypes) := by
  induction roots generalizing choice with
  | nil => rfl
  | cons root roots ih =>
    obtain ⟨hnew, hapart⟩ := List.nodup_cons.mp hapart
    obtain ⟨hroot, hfree⟩ := List.forall_mem_cons.mp hfree
    have hlater := uid_not_mem hnew
    cases hfound : PolymorphicRoot.ofElement? root with
    | none =>
      have htypes : root.rootTypes = [root.type] := by
        unfold FromElement.rootTypes
        split
        · rename_i polymorphic htype
          cases hfound.symm.trans (PolymorphicRoot.ofElement?_of_polymorphic htype)
        · rfl
      have hkept : ∀ entities, chosenType (choice.chooseAll
          ((roots.filterMap PolymorphicRoot.ofElement?).map PolymorphicRoot.uid) entities) root
            = root.type := by
        intro entities
        rw [chosenType, Choice.chooseAll_of_not_mem hlater, hroot]
        rfl
      rw [List.filterMap_cons_none hfound, List.map_cons, htypes, tuples_singleton,
        ← ih hapart hfree, List.map_map]
      simp only [List.map_cons, hkept, Function.comp_def]
    | some first =>
      have huid : first.uid = root.uid := ofElement?_uid hfound
      have htype := PolymorphicRoot.ofElement?_polymorphic hfound
      have htypes : root.rootTypes = first.polymorphic.implementors.map .entity := by
        rw [FromElement.rootTypes, htype]
      -- What is chosen for this root is not chosen again for a later one.
      have hrest : ∀ entity, (rootChoices (roots.filterMap PolymorphicRoot.ofElement?)).map
          (fun others => (root :: roots).map (chosenType ((choice.choose root.uid entity).chooseAll
            ((roots.filterMap PolymorphicRoot.ofElement?).map PolymorphicRoot.uid) others)))
          = (tuples (roots.map FromElement.rootTypes)).map (.entity entity :: ·) := by
        intro entity
        have hfree' : ∀ other ∈ roots, choice.choose root.uid entity other.uid = none := by
          intro other hother
          rw [Choice.choose_of_ne, hfree other hother]
          exact fun hsame => hnew (List.mem_map.mpr ⟨other, hother, hsame⟩)
        have hchosen : ∀ others, chosenType ((choice.choose root.uid entity).chooseAll
            ((roots.filterMap PolymorphicRoot.ofElement?).map PolymorphicRoot.uid) others) root
              = .entity entity := by
          intro others
          rw [chosenType, Choice.chooseAll_of_not_mem hlater, Choice.choose_self]
          rfl
        rw [← ih hapart hfree', List.map_map]
        simp only [List.map_cons, hchosen, Function.comp_def]
      rw [List.filterMap_cons_some hfound, List.map_cons, List.map_cons, htypes, huid, rootChoices,
        List.map_cons, tuples, tuples, List.map_flatMap, List.flatMap_map]
      refine List.flatMap_congr fun entity _ => ?_
      rw [List.map_map]
      exact hrest entity

/-! ## Splitting again -/

namespace Query

variable {query : Query} {first : PolymorphicRoot} {rest : List PolymorphicRoot}

/-- A copy for the first root can be split, and has a polymorphic root less. -/
theorem mem_splitRoot (hquery : query.Splittable) (hroots : query.polymorphicRoots = first :: rest)
    {copied : Query} (hcopied : copied ∈ query.splitRoot first) :
    copied.Splittable ∧ copied.polymorphicRoots.length = rest.length := by
  obtain ⟨entity, start, rfl⟩ := mem_copies hcopied
  obtain ⟨number, h⟩ := copy_copied hquery.numbered ⟨first.uid, entity⟩ start
  exact ⟨h.splittable hquery, by rw [h.polymorphicRoots hquery hroots, List.length_map]⟩

/-- A query is split into the parts of the copies for its first polymorphic root. -/
theorem split_cons (hquery : query.Splittable) (hroots : query.polymorphicRoots = first :: rest) :
    query.split = (query.splitRoot first).flatMap split := by
  rw [split, hroots, List.length_cons, splitRoots, hroots]
  refine List.flatMap_congr fun copied hcopied => ?_
  rw [split, (mem_splitRoot hquery hroots hcopied).2]

/-- No part has a polymorphic root. The induction is on the number of those of the query. -/
theorem split_whole (hquery : query.Splittable) : ∀ part ∈ query.split, part.isWhole = true := by
  induction hcount : query.polymorphicRoots.length generalizing query with
  | zero =>
    have hwhole : query.isWhole = true :=
      List.isEmpty_iff.mpr (List.eq_nil_of_length_eq_zero hcount)
    rw [split_of_isWhole hwhole]
    exact fun part hpart => List.mem_singleton.mp hpart ▸ hwhole
  | succ count ih =>
    obtain ⟨first, rest, hroots⟩ :=
      List.exists_cons_of_ne_nil (List.ne_nil_of_length_eq_add_one hcount)
    rw [split_cons hquery hroots]
    intro part hpart
    obtain ⟨copied, hcopied, hpart⟩ := List.mem_flatMap.mp hpart
    obtain ⟨hsplittable, hlength⟩ := mem_splitRoot hquery hroots hcopied
    rw [hroots, List.length_cons] at hcount
    exact ih hsplittable (hlength.trans (Nat.succ.inj hcount)) part hpart

end Query

/-- The roots of the parts have the types of all choices in their order. -/
theorem split_types {query : Query} (hquery : query.Splittable)
    (hself : query.select.rebuilt true id = query.select) :
    query.split.map (fun part => part.select.roots.map FromElement.type)
      = tuples (query.select.roots.map FromElement.rootTypes) := by
  have hfree : ∀ root ∈ query.select.roots, Choice.none root.uid = none := fun _ _ => rfl
  have himages : List.Forall₂
      (fun entities (part : Query) => query.select.roots.map (chosenType (query.chosen entities))
        = part.select.roots.map FromElement.type)
      (rootChoices query.polymorphicRoots) query.split := by
    refine (split_images hquery hself).imp fun entities part ⟨number, himage⟩ => ?_
    rw [himage.select, roots_rebuilt, List.map_map]
    exact List.map_congr_left fun root _ => (root.type_image).symm
  rw [← chosenTypes_product hquery.apart hfree]
  have hsame := List.forall₂_map_left_iff.mpr (List.forall₂_map_right_iff.mpr himages)
  rw [List.forall₂_eq_eq_eq] at hsame
  exact hsame.symm

end Splitting

/-- When a query that has a meaning is split, the types of the roots of its parts are the product of
the types that the roots may have, of which the first varies slowest; the number of parts is the
product of the numbers of implementors. A query with a polymorphic root is split into the parts of
its copies for the first one. No part has a polymorphic root, so that it is its own only part, and a
query without any is its own only part, too. -/
theorem interpretPhrase_split_product {written : Phrase.Query} {schema : Schema}
    {meaning : Meaning} {select : Select}
    (h : interpretPhrase (.select written) schema = .ok meaning)
    (hselect : meaning.statement = .select select) :
    let query : Query := ⟨select, meaning.narrowings⟩
    query.split.map (fun part => part.select.roots.map FromElement.type)
        = tuples (select.roots.map FromElement.rootTypes)
      ∧ query.split.length
        = (query.polymorphicRoots.map fun root => root.polymorphic.implementors.length).prod
      ∧ (∀ first rest, query.polymorphicRoots = first :: rest →
        query.split = (query.splitRoot first).flatMap Query.split)
      ∧ (∀ part ∈ query.split, part.polymorphicRoots = [] ∧ part.split = [part])
      ∧ (query.polymorphicRoots = [] → query.split = [query]) := by
  intro query
  have hquery : query.Splittable := interpretPhrase_splittable h hselect
  have hself : query.select.rebuilt true id = query.select := interpretPhrase_rebuilt_id h hselect
  refine ⟨split_types hquery hself, ?_, fun first rest => Query.split_cons hquery,
    fun part hpart => ?_, fun hnone => ?_⟩
  · rw [← (split_images hquery hself).length_eq, rootChoices, length_tuples, List.map_map]
    rfl
  · have hwhole := Query.split_whole hquery part hpart
    exact ⟨List.isEmpty_iff.mp hwhole, Query.split_of_isWhole hwhole⟩
  · exact Query.split_of_isWhole (List.isEmpty_iff.mpr hnone)

/-- Animals, one entity between them, and animals again. -/
def threesomeText : String := "select a from Animal a, Dog d, Animal b where a.name = d.name"

/-- Two animals and a dog are four combinations, of which the first animal varies slowest. -/
theorem interpretPhrase_split_product_threesome :
    ∃ written meaning select, Phrase.Statement.ofText threesomeText = .ok (.select written)
      ∧ interpretPhrase (.select written) kennel.schema = .ok meaning
      ∧ meaning.statement = .select select
      ∧ (Query.split ⟨select, meaning.narrowings⟩).map
          (fun part => part.select.roots.map FromElement.type)
        = [[.entity cat, .entity dog, .entity cat], [.entity cat, .entity dog, .entity dog],
          [.entity dog, .entity dog, .entity cat], [.entity dog, .entity dog, .entity dog]] := by
  have hpasses : selectPasses threesomeText kennel.schema (fun query =>
      tuples (query.select.roots.map FromElement.rootTypes)
        == [[.entity cat, .entity dog, .entity cat], [.entity cat, .entity dog, .entity dog],
          [.entity dog, .entity dog, .entity cat], [.entity dog, .entity dog, .entity dog]])
      = true := by decide +kernel
  obtain ⟨written, meaning, select, hread, hmeaning, hselect, htypes⟩ :=
    exists_of_selectPasses hpasses
  refine ⟨written, meaning, select, hread, hmeaning, hselect, ?_⟩
  exact (interpretPhrase_split_product hmeaning hselect).1.trans (eq_of_beq htypes)

end EntityQuery

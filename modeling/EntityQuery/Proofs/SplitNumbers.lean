import EntityQuery.Proofs.CopiedQueries
import Mathlib.Tactic.Ring

/-!
# Numbers of split queries

A query with several polymorphic roots is split root by root, and each copy of a copy starts to
count right behind what it was copied from. The numbers of a part are therefore one block, and
which block it is depends only on the sum of the positions of its implementors.

* `positionSums`: the sums of positions, in the order of the parts.
* `positionSums_nodup`: the sums differ exactly if at most one root has a choice.
* `Query.Splittable`: what a query needs to be split so.
* `split_numbers`: the blocks of the parts.
-/

namespace EntityQuery.Splitting

open Resolved (Select)

/-! ## Sums of positions -/

/-- The sum of one position for each size, in lexicographic order of the positions. -/
def positionSums : List Nat → List Nat
  | [] => [0]
  | size :: sizes => (List.range size).flatMap fun position =>
    (positionSums sizes).map fun sum => position + sum

/-- Without a choice for one size there is no sum. -/
theorem positionSums_eq_nil {sizes : List Nat} (h : 0 ∈ sizes) : positionSums sizes = [] := by
  induction sizes with
  | nil => cases h
  | cons size sizes ih =>
    rcases List.mem_cons.mp h with hzero | hmem
    · rw [positionSums, ← hzero]
      rfl
    · rw [positionSums, ih hmem]
      simp

theorem zero_mem_positionSums {sizes : List Nat} (h : 0 ∉ sizes) : 0 ∈ positionSums sizes := by
  induction sizes with
  | nil => exact List.mem_singleton_self 0
  | cons size sizes ih =>
    have hpos : 0 < size := Nat.pos_of_ne_zero fun hzero => h (hzero ▸ List.mem_cons_self)
    have hrest : 0 ∉ sizes := fun hmem => h (List.mem_cons_of_mem _ hmem)
    refine List.mem_flatMap.mpr ⟨0, List.mem_range.mpr hpos, ?_⟩
    exact List.mem_map.mpr ⟨0, ih hrest, rfl⟩

/-- A choice for one size makes a sum of one. -/
theorem one_mem_positionSums {sizes : List Nat} (h : 0 ∉ sizes)
    (hchoice : ∃ size ∈ sizes, 1 < size) :
    1 ∈ positionSums sizes := by
  induction sizes with
  | nil =>
    obtain ⟨size, hmem, -⟩ := hchoice
    cases hmem
  | cons size sizes ih =>
    have hpos : 0 < size := Nat.pos_of_ne_zero fun hzero => h (hzero ▸ List.mem_cons_self)
    have hrest : 0 ∉ sizes := fun hmem => h (List.mem_cons_of_mem _ hmem)
    by_cases hsize : 1 < size
    · refine List.mem_flatMap.mpr ⟨1, List.mem_range.mpr hsize, ?_⟩
      exact List.mem_map.mpr ⟨0, zero_mem_positionSums hrest, rfl⟩
    · obtain ⟨other, hother, hlt⟩ := hchoice
      have hmem : other ∈ sizes := by
        rcases List.mem_cons.mp hother with rfl | hmem
        · exact absurd hlt hsize
        · exact hmem
      refine List.mem_flatMap.mpr ⟨0, List.mem_range.mpr hpos, ?_⟩
      exact List.mem_map.mpr ⟨1, ih hrest ⟨other, hmem, hlt⟩, rfl⟩

theorem positionSums_ones {sizes : List Nat} (h : ∀ size ∈ sizes, size = 1) :
    positionSums sizes = [0] := by
  induction sizes with
  | nil => rfl
  | cons size sizes ih =>
    obtain ⟨hsize, hrest⟩ := List.forall_mem_cons.mp h
    rw [positionSums, hsize, ih hrest]
    rfl

/-- The sums differ exactly if at most one size leaves a choice. -/
theorem positionSums_nodup {sizes : List Nat} (h : 0 ∉ sizes) :
    (positionSums sizes).Nodup ↔ (sizes.filter (1 < ·)).length ≤ 1 := by
  induction sizes with
  | nil => simp [positionSums]
  | cons size sizes ih =>
    have hpos : 0 < size := Nat.pos_of_ne_zero fun hzero => h (hzero ▸ List.mem_cons_self)
    have hrest : 0 ∉ sizes := fun hmem => h (List.mem_cons_of_mem _ hmem)
    by_cases hsize : 1 < size
    · rw [List.filter_cons_of_pos (by simpa using hsize), List.length_cons]
      by_cases hchoice : ∃ other ∈ sizes, 1 < other
      · -- The sum of one is made in two ways.
        have hfilter : 0 < (sizes.filter (1 < ·)).length := by
          obtain ⟨other, hother, hlt⟩ := hchoice
          exact List.length_pos_of_mem (List.mem_filter.mpr ⟨hother, by simpa using hlt⟩)
        refine ⟨fun hnodup => ?_, fun hle => by omega⟩
        obtain ⟨-, hdisjoint⟩ := List.nodup_flatMap.mp hnodup
        have hfirst : 1 ∈ (positionSums sizes).map fun sum => 0 + sum :=
          List.mem_map.mpr ⟨1, one_mem_positionSums hrest hchoice, rfl⟩
        have hsecond : 1 ∈ (positionSums sizes).map fun sum => 1 + sum :=
          List.mem_map.mpr ⟨0, zero_mem_positionSums hrest, rfl⟩
        have hlt : (0 : Nat) < 1 := Nat.zero_lt_one
        have hpair := List.pairwise_iff_getElem.mp hdisjoint 0 1 (by simpa using hpos)
          (by simpa using hsize) hlt
        simp only [List.getElem_range] at hpair
        exact absurd hsecond (hpair hfirst)
      · have hones : ∀ other ∈ sizes, other = 1 := by
          intro other hother
          have hne : other ≠ 0 := fun hzero => hrest (hzero ▸ hother)
          have hle : ¬ 1 < other := fun hlt => hchoice ⟨other, hother, hlt⟩
          omega
        have hnone : sizes.filter (1 < ·) = [] :=
          List.filter_eq_nil_iff.mpr fun other hother => by simp [hones other hother]
        rw [positionSums, positionSums_ones hones, hnone]
        simp only [List.map_cons, List.map_nil, Nat.add_zero, List.length_nil]
        refine iff_of_true ?_ (Nat.le_refl _)
        rw [List.flatMap_singleton']
        exact List.nodup_range
    · have hone : size = 1 := by omega
      rw [List.filter_cons_of_neg (by simpa using hsize), ← ih hrest, positionSums, hone]
      simp

/-! ## Blocks of numbers -/

/-- The numbers of a part: the block behind as many others as the sum of its positions and of the
roots that were replaced says. -/
def block (size start sum : Nat) : Finset Nat :=
  Finset.Ico (start + size * sum) (start + size * sum + size)

theorem disjoint_block {size start sum other : Nat} (hpos : 0 < size) :
    Disjoint (block size start sum) (block size start other) ↔ sum ≠ other := by
  constructor
  · rintro hdisjoint rfl
    have hmem : start + size * sum ∈ block size start sum :=
      Finset.mem_Ico.mpr ⟨Nat.le_refl _, by omega⟩
    exact Finset.disjoint_left.mp hdisjoint hmem hmem
  · intro hne
    refine Finset.disjoint_left.mpr fun uid hfirst hsecond => ?_
    obtain ⟨hle, hlt⟩ := Finset.mem_Ico.mp hfirst
    obtain ⟨hle', hlt'⟩ := Finset.mem_Ico.mp hsecond
    rcases Nat.lt_or_gt_of_ne hne with h | h
    · have hnext : size * sum + size ≤ size * other := by
        rw [← Nat.mul_succ]
        exact Nat.mul_le_mul_left size h
      omega
    · have hnext : size * other + size ≤ size * sum := by
        rw [← Nat.mul_succ]
        exact Nat.mul_le_mul_left size h
      omega

namespace Query

/-- How many entities each polymorphic root may stand for. -/
def choices (query : Query) : List Nat :=
  query.polymorphicRoots.map fun root => root.polymorphic.implementors.length

theorem le_greatestUid {query : Query} {uid : Nat} (h : uid ∈ query.numbers) :
    uid ≤ query.select.greatestUid := by
  have hall : ∀ (uids : List Nat) (least : Nat), least ≤ uids.foldl max least
      ∧ ∀ uid ∈ uids, uid ≤ uids.foldl max least := by
    intro uids
    induction uids with
    | nil => exact fun least => ⟨Nat.le_refl _, fun _ hmem => by cases hmem⟩
    | cons first uids ih =>
      intro least
      obtain ⟨hleast, hmem⟩ := ih (max least first)
      refine ⟨Nat.le_trans (Nat.le_max_left _ _) hleast, fun uid huid => ?_⟩
      rcases List.mem_cons.mp huid with rfl | huid
      · exact Nat.le_trans (Nat.le_max_right _ _) hleast
      · exact hmem uid huid
  exact (hall _ 0).2 uid (List.mem_toFinset.mp h)

theorem greatestUid_lt {query : Query} {bound : Nat} (hpos : 0 < bound)
    (h : ∀ uid ∈ query.numbers, uid < bound) : query.select.greatestUid < bound := by
  have hall : ∀ (uids : List Nat) (least : Nat), least < bound → (∀ uid ∈ uids, uid < bound) →
      uids.foldl max least < bound := by
    intro uids
    induction uids with
    | nil => exact fun _ hleast _ => hleast
    | cons first uids ih =>
      intro least hleast hmem
      obtain ⟨hfirst, hrest⟩ := List.forall_mem_cons.mp hmem
      exact ih _ (Nat.max_lt.mpr ⟨hleast, hfirst⟩) hrest
  exact hall _ 0 hpos fun uid huid => h uid (List.mem_toFinset.mpr huid)

/-- A query whose numbers are one block is copied from behind that block on. -/
theorem greatestUid_of_block {query : Query} {start size : Nat} (hpos : 0 < size)
    (h : query.numbers = Finset.Ico start (start + size)) :
    query.select.greatestUid + 1 = start + size := by
  have hlast : start + size - 1 ∈ query.numbers := by
    rw [h]
    exact Finset.mem_Ico.mpr ⟨by omega, by omega⟩
  have hle := le_greatestUid hlast
  have hlt : query.select.greatestUid < start + size := by
    refine greatestUid_lt (by omega) fun uid huid => ?_
    rw [h] at huid
    exact (Finset.mem_Ico.mp huid).2
  omega

end Query

/-- What is known of the parts of a query whose numbers are one block. -/
def SplitsFrom (size count : Nat) (choices : List Nat) : Prop :=
  ∀ (part : Query) (start : Nat), part.Splittable →
    part.numbers = Finset.Ico start (start + size) → part.choices = choices →
      (Query.splitRoots count part).map Query.numbers
        = (positionSums choices).map fun sum => block size start (sum + count)

/-- The parts of the copies for some entities, with the numbers from a start on. -/
theorem copies_numbers {query : Query} (hquery : query.Splittable) {first : PolymorphicRoot}
    {rest : List PolymorphicRoot} (hroots : query.polymorphicRoots = first :: rest) {count : Nat}
    {choices : List Nat}
    (hchoices : query.choices = first.polymorphic.implementors.length :: choices)
    (hparts : SplitsFrom query.numbers.card count choices) (entities : List Entity) (next : Nat) :
    ((query.copies first.uid entities next).flatMap (Query.splitRoots count)).map Query.numbers
      = ((List.range entities.length).flatMap fun position =>
          (positionSums choices).map fun sum => position + sum).map
        fun sum => block query.numbers.card next (sum + count) := by
  induction entities generalizing next with
  | nil => rfl
  | cons entity entities ih =>
    obtain ⟨number, hcopied⟩ := Query.copy_copied hquery.numbered ⟨first.uid, entity⟩ next
    have hcopies : query.copies first.uid (entity :: entities) next
        = (query.copy ⟨first.uid, entity⟩ next).1
          :: query.copies first.uid entities (next + query.numbers.card) := by
      rw [← hcopied.next]
      rfl
    have hrest : (query.copy ⟨first.uid, entity⟩ next).1.choices = choices := by
      have hold := hchoices
      rw [Query.choices, hroots, List.map_cons] at hold
      rw [Query.choices, hcopied.polymorphicRoots hquery hroots, List.map_map]
      exact (List.cons.inj hold).2
    rw [hcopies, List.flatMap_cons, List.map_append, ih,
      hparts _ next (hcopied.splittable hquery) hcopied.numbers hrest, List.length_cons,
      List.range_succ_eq_map, List.flatMap_cons, List.map_append, List.flatMap_map]
    refine congrArg₂ (· ++ ·) ?_ ?_
    · simp
    · -- The blocks of the later copies are one further each.
      rw [List.map_flatMap, List.map_flatMap]
      refine List.flatMap_congr fun position _ => ?_
      rw [List.map_map, List.map_map]
      refine List.map_congr_left fun sum _ => ?_
      have hshift : next + query.numbers.card + query.numbers.card * (position + sum + count)
          = next + query.numbers.card * (position + 1 + sum + count) := by ring
      simp only [Function.comp_apply, block, Nat.succ_eq_add_one, hshift]

theorem numbers_pos {query : Query} {first : PolymorphicRoot} {rest : List PolymorphicRoot}
    (hroots : query.polymorphicRoots = first :: rest) : 0 < query.numbers.card := by
  have hmem : first ∈ query.polymorphicRoots := hroots ▸ List.mem_cons_self
  obtain ⟨root, hroot, -⟩ := List.mem_filterMap.mp hmem
  exact Finset.card_pos.mpr
    ⟨root.uid, Query.mem_numbers.mpr ⟨root, roots_subset_elements _ hroot, rfl⟩⟩

theorem splitsFrom (size count : Nat) (choices : List Nat) (hcount : choices.length = count) :
    SplitsFrom size count choices := by
  induction count generalizing choices with
  | zero =>
    intro part start _ hnumbers _
    rw [List.length_eq_zero_iff.mp hcount]
    simp [Query.splitRoots, positionSums, block, hnumbers]
  | succ count ih =>
    intro part start hpart hnumbers hchoices
    have hsize : part.numbers.card = size := by
      rw [hnumbers, Nat.card_Ico]
      omega
    cases hroots : part.polymorphicRoots with
    | nil =>
      rw [← hchoices, Query.choices, hroots] at hcount
      cases hcount
    | cons first rest =>
      have hcons : part.choices = first.polymorphic.implementors.length
          :: rest.map fun root => root.polymorphic.implementors.length := by
        rw [Query.choices, hroots, List.map_cons]
      have hparts := ih (rest.map fun root => root.polymorphic.implementors.length) (by
        rw [← hchoices, hcons, List.length_cons] at hcount
        omega)
      have hpos := numbers_pos hroots
      rw [hsize] at hpos
      rw [← hsize] at hparts
      rw [Query.splitRoots, hroots]
      change ((part.copies first.uid first.polymorphic.implementors
        (part.select.greatestUid + 1)).flatMap _).map _ = _
      rw [copies_numbers hpart hroots hcons hparts, Query.greatestUid_of_block hpos hnumbers,
        ← hchoices, hcons, positionSums, hsize]
      refine List.map_congr_left fun sum _ => ?_
      have hshift : start + size + size * (sum + count) = start + size * (sum + (count + 1)) := by
        ring
      simp only [block, hshift]

/-- The numbers of the parts of a query with a polymorphic root. -/
theorem split_numbers {query : Query} (hquery : query.Splittable) {first : PolymorphicRoot}
    {rest : List PolymorphicRoot} (hroots : query.polymorphicRoots = first :: rest) :
    query.split.map Query.numbers = (positionSums query.choices).map fun sum =>
      block query.numbers.card (query.select.greatestUid + 1) (sum + rest.length) := by
  have hcons : query.choices = first.polymorphic.implementors.length
      :: rest.map fun root => root.polymorphic.implementors.length := by
    rw [Query.choices, hroots, List.map_cons]
  have hparts := splitsFrom query.numbers.card rest.length
    (rest.map fun root : PolymorphicRoot => root.polymorphic.implementors.length)
    (List.length_map _)
  rw [Query.split, hroots, List.length_cons, Query.splitRoots, hroots]
  change ((query.copies first.uid first.polymorphic.implementors
    (query.select.greatestUid + 1)).flatMap _).map _ = _
  rw [copies_numbers hquery hroots hcons hparts, hcons, positionSums]

end EntityQuery.Splitting

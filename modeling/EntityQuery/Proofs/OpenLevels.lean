import EntityQuery.Interpretation.OpenSpace
import EntityQuery.Proofs.BoundElements
import EntityQuery.Proofs.OwnMentions
import Mathlib.Data.List.Forall2
import Mathlib.Data.List.Nodup

/-!
# Open from clauses

What the spaces of the open from clauses hold, and how that changes when one space is changed. A
place is a position in the open from clauses with everything around it, so that a change fills the
same place anew.

* `Levels.elements`, `Levels.boundElements`: what is held.
* `Levels.Fit`: every space meets the rules in the scope of its level.
* `Levels.Secluded`: restrictions mention their own space and outer levels.
* `Levels.update_ok`, `Levels.spaceOf?_some`: what a change and a search find.
-/

namespace EntityQuery.Interpretation

open Resolved (Rules joinsBound joinsHold spaceElements spacesBound spacesHold)

/-! ## What open spaces hold -/

/-- The roots and joined elements of one from clause. -/
def clauseElements (spaces : List OpenSpace) : List FromElement :=
  spaces.flatMap OpenSpace.elements

namespace OpenSpace

/-- The elements that the space binds, those in restrictions of its joins included. -/
def boundElements : OpenSpace → List FromElement
  | vacant => []
  | rooted root joins => root :: joinsBound joins

/-- The elements that the restrictions of the joins mention outside nested queries. -/
def ownElements : OpenSpace → List FromElement
  | vacant => []
  | rooted _ joins => joins.flatMap Resolved.Join.ownElements

/-- What restrictions mention stands, without its narrowings, in the space or in `outer`. -/
def Secluded (outer : List FromElement) (space : OpenSpace) : Prop :=
  ∀ element ∈ space.ownElements, element.unwrapped ∈ space.elements ++ outer

/-- The space meets the rules as far as it is filled. -/
def Holds (rules : Rules) (scope : List FromElement) : OpenSpace → Prop
  | vacant => True
  | rooted root joins => (Resolved.Space.mk root joins).Holds rules scope

theorem Holds.mono {rules weaker : Rules} (himp : rules.Implies weaker)
    {scope larger : List FromElement} (hsub : scope ⊆ larger) :
    ∀ {space : OpenSpace}, space.Holds rules scope → space.Holds weaker larger
  | vacant, _ => trivial
  | rooted _ _, h => Resolved.Space.Holds.mono himp hsub h

/-- Every joined element meets its rule. -/
theorem joined {rules : Rules} {scope : List FromElement} {joins : List Resolved.Join}
    (h : joinsHold rules scope joins) :
    ∀ element ∈ joins.map Resolved.Join.element, rules.element scope element := by
  induction joins with
  | nil =>
    intro element hmem
    cases hmem
  | cons first rest ih =>
    obtain ⟨hfirst, hrest⟩ := h
    intro element hmem
    rcases List.mem_cons.mp hmem with rfl | hmem
    · cases first with
      | mk element restriction => exact hfirst.1
    · exact ih hrest element hmem

/-- Every element of a space meets its rule. -/
theorem Holds.element {rules : Rules} {scope : List FromElement} {space : OpenSpace}
    (h : space.Holds rules scope) : ∀ element ∈ space.elements, rules.element scope element := by
  cases space with
  | vacant =>
    intro element hmem
    cases hmem
  | rooted root joins =>
    obtain ⟨hroot, hjoins⟩ := h
    intro element hmem
    rcases List.mem_cons.mp hmem with rfl | hmem
    · exact hroot
    · exact joined hjoins element hmem

end OpenSpace

/-- A relation that holds item by item is transitive where it is transitive on items. -/
theorem forall₂_trans {α : Type} {R : α → α → Prop}
    {items between after : List α} (h : List.Forall₂ R items between)
    (h' : List.Forall₂ R between after)
    (htrans : ∀ {first second third}, R first second → R second third → R first third) :
    List.Forall₂ R items after := by
  induction h generalizing after with
  | nil => exact h'
  | cons hfirst _ ih =>
    cases h' with
    | cons hsecond hrest => exact .cons (htrans hfirst hsecond) (ih hrest)

namespace Levels

/-- The elements of all open spaces, those of the innermost from clause first. -/
def elements (levels : Levels) : List FromElement := levels.flatMap clauseElements

/-- The elements that all open spaces bind. -/
def boundElements (levels : Levels) : List FromElement :=
  levels.flatMap fun spaces => spaces.flatMap OpenSpace.boundElements

/-- What the spaces of each level have as root. -/
def roots (levels : Levels) : List (List (Option FromElement)) :=
  levels.map fun spaces => spaces.map OpenSpace.root?

/-- Every open space meets the rules in the scope of its level. -/
def Fit (rules : Rules) : Levels → Prop
  | [] => True
  | spaces :: below =>
    (∀ space ∈ spaces, space.Holds rules (elements (spaces :: below))) ∧ Fit rules below

/-- The restrictions of each space mention the space itself and outer levels. -/
def Secluded : Levels → Prop
  | [] => True
  | spaces :: below => (∀ space ∈ spaces, space.Secluded (elements below)) ∧ Secluded below

@[simp] theorem elements_cons (spaces : List OpenSpace) (below : Levels) :
    elements (spaces :: below) = clauseElements spaces ++ elements below := rfl

theorem elements_eq_flatMap (levels : Levels) :
    levels.elements = levels.flatten.flatMap OpenSpace.elements := by
  induction levels with
  | nil => rfl
  | cons spaces below ih => simp [clauseElements, ih]

/-- Each level of the second clauses holds the elements of the same level of the first ones. -/
def Grow (levels more : Levels) : Prop :=
  List.Forall₂ (fun spaces grown => clauseElements spaces ⊆ clauseElements grown) levels more

theorem Grow.refl (levels : Levels) : levels.Grow levels :=
  List.forall₂_same.mpr fun _ _ _ h => h

theorem Grow.trans {levels more most : Levels} (h : levels.Grow more) (h' : more.Grow most) :
    levels.Grow most :=
  forall₂_trans h h' List.Subset.trans

theorem Grow.elements {levels more : Levels} (h : levels.Grow more) :
    levels.elements ⊆ more.elements := by
  induction h with
  | nil => exact fun _ h => h
  | cons hfirst _ ih =>
    intro element hmem
    rcases List.mem_append.mp hmem with hmem | hmem
    · exact List.mem_append_left _ (hfirst hmem)
    · exact List.mem_append_right _ (ih hmem)

theorem Fit.mono {rules weaker : Rules} (himp : rules.Implies weaker) :
    ∀ {levels : Levels}, levels.Fit rules → levels.Fit weaker
  | [], _ => trivial
  | _ :: _, ⟨hspaces, hbelow⟩ =>
    ⟨fun space hspace => (hspaces space hspace).mono himp fun _ h => h, hbelow.mono himp⟩

/-- Every element of an open space meets its rule in the scope of all levels. -/
theorem Fit.element {rules : Rules} (himp : rules.Implies rules) {levels : Levels}
    (h : levels.Fit rules) :
    ∀ element ∈ levels.elements, rules.element levels.elements element := by
  induction levels with
  | nil =>
    intro element hmem
    cases hmem
  | cons spaces below ih =>
    obtain ⟨hspaces, hbelow⟩ := h
    intro element hmem
    rcases List.mem_append.mp hmem with hmem | hmem
    · obtain ⟨space, hspace, helement⟩ := List.mem_flatMap.mp hmem
      exact (hspaces space hspace).element element helement
    · exact himp.element (List.subset_append_right _ _) (ih hbelow element hmem)

/-! ## Closing a level -/

theorem close_cons {space : OpenSpace} {spaces : List OpenSpace} {closed : List Resolved.Space}
    (h : close (space :: spaces) = .ok closed) :
    ∃ root joins rest, space = .rooted root joins ∧ close spaces = .ok rest
      ∧ closed = .mk root joins :: rest := by
  simp only [close, List.mapM_cons] at h
  cases space with
  | vacant => cases h
  | rooted root joins =>
    cases hrest : close spaces with
    | error fault =>
      simp only [close] at hrest
      rw [hrest] at h
      cases h
    | ok rest =>
      simp only [close] at hrest
      rw [hrest] at h
      cases h
      exact ⟨root, joins, rest, rfl, rfl, rfl⟩

/-- The finished spaces have the elements of the open ones. -/
theorem close_elements {spaces : List OpenSpace} {closed : List Resolved.Space}
    (h : close spaces = .ok closed) : spaceElements closed = clauseElements spaces := by
  induction spaces generalizing closed with
  | nil =>
    cases h
    rfl
  | cons space spaces ih =>
    obtain ⟨root, joins, rest, rfl, hrest, rfl⟩ := close_cons h
    have htail := ih hrest
    simp only [spaceElements, clauseElements] at htail
    simp [spaceElements, clauseElements, htail, Resolved.Space.elements, Resolved.Space.root,
      Resolved.Space.joins, OpenSpace.elements]

theorem close_bound {spaces : List OpenSpace} {closed : List Resolved.Space}
    (h : close spaces = .ok closed) :
    spacesBound closed = spaces.flatMap OpenSpace.boundElements := by
  induction spaces generalizing closed with
  | nil =>
    cases h
    rfl
  | cons space spaces ih =>
    obtain ⟨root, joins, rest, rfl, hrest, rfl⟩ := close_cons h
    simp [spacesBound, Resolved.Space.boundElements, OpenSpace.boundElements, ih hrest]

theorem close_holds {rules : Rules} {scope : List FromElement} {spaces : List OpenSpace}
    {closed : List Resolved.Space} (h : close spaces = .ok closed)
    (hspaces : ∀ space ∈ spaces, space.Holds rules scope) : spacesHold rules scope closed := by
  induction spaces generalizing closed with
  | nil =>
    cases h
    trivial
  | cons space spaces ih =>
    obtain ⟨root, joins, rest, rfl, hrest, rfl⟩ := close_cons h
    have hfirst := hspaces _ List.mem_cons_self
    exact ⟨hfirst, ih hrest fun other hother => hspaces other (List.mem_cons_of_mem _ hother)⟩

/-- The finished spaces are the open ones with their joins. -/
theorem close_spaces {spaces : List OpenSpace} {closed : List Resolved.Space}
    (h : close spaces = .ok closed) :
    spaces = closed.map fun space => .rooted space.root space.joins := by
  induction spaces generalizing closed with
  | nil =>
    cases h
    rfl
  | cons space spaces ih =>
    obtain ⟨root, joins, rest, rfl, hrest, rfl⟩ := close_cons h
    rw [List.map_cons, ← ih hrest]
    rfl

/-- A query over the finished spaces is secluded: each element stands in one place only. -/
theorem close_secluded {spaces : List OpenSpace} {closed : List Resolved.Space} {below : Levels}
    (h : close spaces = .ok closed) (hsecluded : Secluded (spaces :: below))
    (hplaced : ((elements (spaces :: below)).map FromElement.uid).Nodup)
    {select : Resolved.Select} (hselect : select.spaces = closed) : select.Secluded := by
  intro front space back hspaces join hjoin element helement other hother hmem
  rw [hselect] at hspaces
  have hspace : .rooted space.root space.joins ∈ spaces := by
    rw [close_spaces h, hspaces]
    simp
  have hown : element ∈ (OpenSpace.rooted space.root space.joins).ownElements :=
    List.mem_flatMap.mpr ⟨join, hjoin, helement⟩
  have hnear : element.unwrapped ∈ space.elements ++ elements below :=
    hsecluded.1 _ hspace element hown
  rw [elements_cons, ← close_elements h, hspaces] at hplaced
  have hcount := List.nodup_iff_count_le_one.mp (List.Nodup.of_map _ hplaced) element.unwrapped
  simp only [spaceElements, List.flatMap_append, List.flatMap_cons, List.count_append] at hcount
  -- The element would stand in its own space or below, and in the other space.
  have hself := List.count_pos_iff.mpr hnear
  have hmore := List.count_pos_iff.mpr (List.mem_flatMap.mpr ⟨other, hother, hmem⟩)
  rw [List.count_append] at hself
  rw [List.flatMap_append, List.count_append] at hmore
  omega

theorem close_roots {spaces : List OpenSpace} {closed : List Resolved.Space}
    (h : close spaces = .ok closed) :
    spaces.map OpenSpace.root? = closed.map fun space => some space.root := by
  induction spaces generalizing closed with
  | nil =>
    cases h
    rfl
  | cons space spaces ih =>
    obtain ⟨root, joins, rest, rfl, hrest, rfl⟩ := close_cons h
    simp [OpenSpace.root?, Resolved.Space.root, ih hrest]

end Levels

/-! ## Places -/

/-- A position in the open from clauses with what is around it: the levels above and below and the
other spaces of its own level. -/
structure Place where
  above : Levels
  left : List OpenSpace
  right : List OpenSpace
  below : Levels

namespace Place

def id (place : Place) : SpaceId := ⟨place.below.length, place.left.length⟩

/-- The level of the place with a space in it. -/
def clause (place : Place) (space : OpenSpace) : List OpenSpace :=
  place.left ++ space :: place.right

/-- The levels with a space in the place. -/
def fill (place : Place) (space : OpenSpace) : Levels :=
  place.above ++ place.clause space :: place.below

/-- The elements that are in scope at the place. -/
def scope (place : Place) (space : OpenSpace) : List FromElement :=
  Levels.elements (place.clause space :: place.below)

/-- The other open spaces. -/
def others (place : Place) : List OpenSpace :=
  place.above.flatten ++ (place.left ++ place.right) ++ place.below.flatten

variable {place : Place} {space filled : OpenSpace}

theorem mem_fill {other : OpenSpace} :
    other ∈ (place.fill space).flatten ↔ other = space ∨ other ∈ place.others := by
  simp only [fill, clause, others, List.flatten_append, List.flatten_cons, List.mem_append,
    List.mem_cons]
  tauto

/-- The number of a space says where it is. -/
theorem fill_inj {other : Place} (hfill : place.fill space = other.fill filled)
    (hid : place.id = other.id) : place = other ∧ space = filled := by
  obtain ⟨above, left, right, below⟩ := place
  obtain ⟨above', left', right', below'⟩ := other
  simp only [id, SpaceId.mk.injEq] at hid
  obtain ⟨hbelow, hleft⟩ := hid
  simp only [fill, clause] at hfill
  obtain ⟨rfl, htail⟩ := List.append_inj' hfill (by simp [hbelow])
  obtain ⟨hclause, rfl⟩ := List.cons.inj htail
  obtain ⟨rfl, hright⟩ := List.append_inj hclause hleft
  obtain ⟨rfl, rfl⟩ := List.cons.inj hright
  exact ⟨rfl, rfl⟩

theorem mem_scope : space.elements ⊆ place.scope space := by
  intro element hmem
  simp [scope, clause, clauseElements, hmem]

theorem scope_subset_fill : place.scope space ⊆ (place.fill space).elements := by
  intro element hmem
  simp only [fill, Levels.elements, List.flatMap_append, List.mem_append]
  exact .inr hmem

theorem clauseElements_mono (hsub : space.elements ⊆ filled.elements) :
    clauseElements (place.clause space) ⊆ clauseElements (place.clause filled) := by
  intro element hmem
  simp only [clause, clauseElements, List.flatMap_append, List.flatMap_cons, List.mem_append]
    at hmem ⊢
  rcases hmem with hmem | hmem | hmem
  · exact .inl hmem
  · exact .inr (.inl (hsub hmem))
  · exact .inr (.inr hmem)

theorem scope_mono (hsub : space.elements ⊆ filled.elements) :
    place.scope space ⊆ place.scope filled :=
  List.append_subset.mpr ⟨List.Subset.trans (clauseElements_mono hsub)
    (List.subset_append_left _ _), List.subset_append_right _ _⟩

/-- The clauses grow level by level when a space grows. -/
theorem fill_grows (place : Place) (hsub : space.elements ⊆ filled.elements) :
    (place.fill space).Grow (place.fill filled) := by
  refine List.rel_append (Levels.Grow.refl _) (.cons ?_ (Levels.Grow.refl _))
  exact clauseElements_mono hsub

theorem fill_roots (hroot : filled.root? = space.root?) :
    (place.fill filled).roots = (place.fill space).roots := by
  simp [Levels.roots, fill, clause, hroot]

/-- A space that meets the rules in its place keeps all levels fit. -/
theorem fill_fit {rules : Rules} (himp : rules.Implies rules)
    (hsub : space.elements ⊆ filled.elements) (h : (place.fill space).Fit rules)
    (hfilled : filled.Holds rules (place.scope filled)) : (place.fill filled).Fit rules := by
  obtain ⟨above, left, right, below⟩ := place
  induction above with
  | nil =>
    obtain ⟨hspaces, hbelow⟩ := h
    refine ⟨fun other hother => ?_, hbelow⟩
    rcases List.mem_append.mp hother with hleft | hright
    · exact (hspaces other (List.mem_append_left _ hleft)).mono himp (scope_mono hsub)
    · rcases List.mem_cons.mp hright with rfl | hright
      · exact hfilled
      · exact (hspaces other (List.mem_append_right _ (List.mem_cons_of_mem _ hright))).mono himp
          (scope_mono hsub)
  | cons spaces above ih =>
    obtain ⟨hspaces, hrest⟩ := h
    refine ⟨fun other hother => (hspaces other hother).mono himp ?_, ih hrest hfilled⟩
    have hgrown := (fill_grows ⟨above, left, right, below⟩ hsub).elements
    exact List.append_subset.mpr ⟨List.subset_append_left _ _,
      List.Subset.trans hgrown (List.subset_append_right _ _)⟩

/-- A space whose restrictions keep to it and to outer levels keeps all levels secluded. -/
theorem fill_secluded (hsub : space.elements ⊆ filled.elements) (h : (place.fill space).Secluded)
    (hfilled : filled.Secluded place.below.elements) : (place.fill filled).Secluded := by
  obtain ⟨above, left, right, below⟩ := place
  induction above with
  | nil =>
    obtain ⟨hspaces, hbelow⟩ := h
    refine ⟨fun other hother => ?_, hbelow⟩
    rcases List.mem_append.mp hother with hleft | hright
    · exact hspaces other (List.mem_append_left _ hleft)
    · rcases List.mem_cons.mp hright with rfl | hright
      · exact hfilled
      · exact hspaces other (List.mem_append_right _ (List.mem_cons_of_mem _ hright))
  | cons spaces above ih =>
    obtain ⟨hspaces, hrest⟩ := h
    refine ⟨fun other hother element helement => ?_, ih hrest hfilled⟩
    have hgrown := (fill_grows ⟨above, left, right, below⟩ hsub).elements
    exact List.append_subset.mpr ⟨List.subset_append_left _ _,
      List.Subset.trans hgrown (List.subset_append_right _ _)⟩ (hspaces other hother element helement)

theorem secluded_at (h : (place.fill space).Secluded) : space.Secluded place.below.elements := by
  obtain ⟨above, left, right, below⟩ := place
  induction above with
  | nil => exact h.1 space (by simp [clause])
  | cons spaces above ih => exact ih h.2

/-- What stands in a place meets the rules in the scope of the place. -/
theorem fit_clause {rules : Rules} (h : (place.fill space).Fit rules) :
    ∀ other ∈ place.clause space, other.Holds rules (place.scope space) := by
  obtain ⟨above, left, right, below⟩ := place
  induction above with
  | nil => exact h.1
  | cons spaces above ih => exact ih h.2

end Place

namespace Levels

/-- The element stands in the space of a number or in an outer level. -/
def Near (levels : Levels) (id : SpaceId) (element : FromElement) : Prop :=
  ∀ place space, levels = Place.fill place space → place.id = id →
    element.unwrapped ∈ space.elements ++ place.below.elements

/-- The space in a place is the one that is changed under its number. -/
theorem update_fill (place : Place) (space : OpenSpace)
    (change : OpenSpace → Except Fault OpenSpace) :
    update change (place.fill space) place.id = (change space).map place.fill := by
  obtain ⟨above, left, right, below⟩ := place
  induction above with
  | nil =>
    simp only [Place.fill, Place.clause, Place.id, List.nil_append, update, if_pos,
      List.getElem?_append_right (Nat.le_refl _), Nat.sub_self, List.getElem?_cons_zero]
    congr 1
    funext filled
    simp [Place.fill, Place.clause]
  | cons spaces above ih =>
    have hlevel : ((⟨above, left, right, below⟩ : Place).fill space).length ≠ below.length := by
      simp [Place.fill]
      omega
    have hupdate : update change ((⟨spaces :: above, left, right, below⟩ : Place).fill space)
        ⟨below.length, left.length⟩
          = (update change ((⟨above, left, right, below⟩ : Place).fill space)
            ⟨below.length, left.length⟩).map fun levels => spaces :: levels :=
      if_neg hlevel
    rw [Place.id, hupdate]
    change (update change _ (Place.id ⟨above, left, right, below⟩)).map _ = _
    rw [ih]
    cases change space <;> rfl

/-- A change that succeeds puts a changed space into a place. -/
theorem update_ok {change : OpenSpace → Except Fault OpenSpace} {levels after : Levels}
    {id : SpaceId} (h : levels.update change id = .ok after) :
    ∃ place space filled, levels = Place.fill place space ∧ after = place.fill filled
      ∧ place.id = id ∧ change space = .ok filled := by
  induction levels generalizing after with
  | nil => cases h
  | cons spaces below ih =>
    simp only [update] at h
    split at h
    · rename_i hlevel
      split at h
      · cases h
      · rename_i space hspace
        cases hchange : change space with
        | error fault => simp [hchange, Except.map] at h
        | ok filled =>
          simp only [hchange, Except.map, Except.ok.injEq] at h
          subst h
          obtain ⟨hlt, rfl⟩ := List.getElem?_eq_some_iff.mp hspace
          refine ⟨⟨[], spaces.take id.index, spaces.drop (id.index + 1), below⟩, _, filled, ?_, ?_,
            ?_, hchange⟩
          · simp [Place.fill, Place.clause]
          · simp [Place.fill, Place.clause, List.set_eq_take_append_cons_drop, hlt]
          · simp only [Place.id, hlevel, List.length_take]
            rw [Nat.min_eq_left (Nat.le_of_lt hlt)]
    · cases hupdate : update change below id with
      | error fault => simp [hupdate, Except.map] at h
      | ok changed =>
        simp only [hupdate, Except.map, Except.ok.injEq] at h
        subst h
        obtain ⟨place, space, filled, rfl, rfl, hid, hchange⟩ := ih hupdate
        exact ⟨⟨spaces :: place.above, place.left, place.right, place.below⟩, space, filled, rfl,
          rfl, hid, hchange⟩

/-- The space that is found for a number holds an element of that number. -/
theorem spaceOf?_some {levels : Levels} {uid : Nat} {id : SpaceId}
    (h : levels.spaceOf? uid = some id) :
    ∃ place space, levels = Place.fill place space ∧ place.id = id
      ∧ ∃ element ∈ space.elements, element.uid = uid := by
  induction levels with
  | nil => cases h
  | cons spaces below ih =>
    simp only [spaceOf?] at h
    split at h
    · rename_i index hindex
      cases h
      obtain ⟨hlt, hfound, -⟩ := List.findIdx?_eq_some_iff_getElem.mp hindex
      obtain ⟨element, hmem, huid⟩ := List.any_eq_true.mp hfound
      refine ⟨⟨[], spaces.take index, spaces.drop (index + 1), below⟩, spaces[index], ?_, ?_,
        element, hmem, eq_of_beq huid⟩
      · simp [Place.fill, Place.clause]
      · simp [Place.id, Nat.min_eq_left (Nat.le_of_lt hlt)]
    · obtain ⟨place, space, rfl, hid, hfound⟩ := ih h
      exact ⟨⟨spaces :: place.above, place.left, place.right, place.below⟩, space, rfl, hid,
        hfound⟩

end Levels
end EntityQuery.Interpretation

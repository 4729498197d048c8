import EntityQuery.Proofs.Carrying
import EntityQuery.Splitting.Copy

/-!
# Copied elements

While a query is copied, a table keeps the copy of every element that was met. The copies are
numbered without gaps, and the copy of an element is the element with its number and its type
changed all along the way that it was reached by.

* `Copying.change`: the change of bindings that a table stands for.
* `Copying.Good`: the invariant of the table.
* `copyLaw`, `copyLaw_records`: copying an element records its copy.
-/

namespace EntityQuery

namespace FromElement

theorem chain_subset {element part : FromElement} (h : part ∈ element.chain) :
    part.chain ⊆ element.chain := by
  induction element with
  | attributeJoin binding source join ih =>
    rcases List.mem_cons.mp h with rfl | h
    · exact fun _ hmem => hmem
    · exact List.Subset.trans (ih h) (List.subset_cons_self _ _)
  | treated binding wrapped ih =>
    rcases List.mem_cons.mp h with rfl | h
    · exact fun _ hmem => hmem
    · exact List.Subset.trans (ih h) (List.subset_cons_self _ _)
  | _ =>
    rw [List.mem_singleton.mp h]
    exact fun _ hmem => hmem

theorem length_chain_le {element part : FromElement} (h : part ∈ element.chain) :
    part.chain.length ≤ element.chain.length := by
  induction element with
  | attributeJoin binding source join ih =>
    rcases List.mem_cons.mp h with rfl | h
    · exact Nat.le_refl _
    · exact Nat.le_succ_of_le (ih h)
  | treated binding wrapped ih =>
    rcases List.mem_cons.mp h with rfl | h
    · exact Nat.le_refl _
    · exact Nat.le_succ_of_le (ih h)
  | _ => exact Nat.le_of_eq (by rw [List.mem_singleton.mp h])

end FromElement

namespace Splitting

namespace Copying

/-- The numbers of the elements that were copied. -/
def keys (state : Copying) : List Nat := state.copied.map CopiedElement.uid

/-- The number of the copy of an element. -/
def number (state : Copying) (uid : Nat) : Nat :=
  ((state.copied.find? fun known => known.uid == uid).map fun known => known.copy.uid).getD 0

/-- The binding of a copy. -/
def change (rebinding : Rebinding) (state : Copying) (binding : Binding) : Binding :=
  { binding with uid := state.number binding.uid, type := rebinding.type binding }

/-- The element and all that it was reached by were copied, to what the table says. -/
def Gives (rebinding : Rebinding) (state : Copying) (element copy : FromElement) : Prop :=
  (∀ part ∈ element.chain, part.uid ∈ state.keys)
    ∧ copy = element.mapBinding (state.change rebinding)

/-- Elements were copied that had not been copied before. -/
def Later (before after : Copying) : Prop :=
  ∃ more, after.copied = more ++ before.copied ∧ ∀ known ∈ more, known.uid ∉ before.keys

/-- What holds of the table of a copy between any two elements. -/
structure Good (rebinding : Rebinding) (marks : Narrowings) (elements : List FromElement)
    (start : Nat) (state : Copying) : Prop where
  keys : state.keys.Nodup
  next : state.nextUid = start + state.copied.length
  /-- The copies are numbered in their order, without gaps. -/
  numbers : (state.copied.map fun known => known.copy.uid).reverse
    = List.range' start state.copied.length
  known : ∀ known ∈ state.copied, ∃ element ∈ elements, element.uid = known.uid
    ∧ state.Gives rebinding element known.copy
  /-- A copy has the marks of what it is a copy of. -/
  marks : ∀ known ∈ state.copied, state.narrowings.of known.copy.uid = marks.of known.uid
  bounded : ∀ mark ∈ state.narrowings, mark.uid < state.nextUid

theorem Later.refl (state : Copying) : Later state state :=
  ⟨[], rfl, fun _ h => by cases h⟩

theorem Later.keys {before after : Copying} (h : Later before after) :
    before.keys ⊆ after.keys := by
  obtain ⟨more, hmore, -⟩ := h
  rw [Copying.keys, Copying.keys, hmore, List.map_append]
  exact List.subset_append_right _ _

theorem Later.trans {before between after : Copying} (h : Later before between)
    (h' : Later between after) : Later before after := by
  have hkeys := h.keys
  obtain ⟨more, hmore, hnew⟩ := h
  obtain ⟨newer, hnewer, hnew'⟩ := h'
  refine ⟨newer ++ more, by rw [hnewer, hmore, List.append_assoc], fun known hknown => ?_⟩
  rcases List.mem_append.mp hknown with hknown | hknown
  · exact fun hmem => hnew' known hknown (hkeys hmem)
  · exact hnew known hknown

/-- What is copied keeps its copy. -/
theorem Later.number {before after : Copying} (h : Later before after) {uid : Nat}
    (hmem : uid ∈ before.keys) : after.number uid = before.number uid := by
  obtain ⟨more, hmore, hnew⟩ := h
  have hnone : (more.find? fun known => known.uid == uid) = none := by
    refine List.find?_eq_none.mpr fun known hknown hsame => ?_
    exact hnew known hknown (eq_of_beq hsame ▸ hmem)
  rw [Copying.number, Copying.number, hmore, List.find?_append, hnone, Option.none_or]

variable {rebinding : Rebinding}

theorem Later.change {before after : Copying} (h : Later before after) {element : FromElement}
    (hmem : element.uid ∈ before.keys) :
    after.change rebinding element.binding = before.change rebinding element.binding := by
  have hnumber : after.number element.binding.uid = before.number element.binding.uid :=
    h.number hmem
  rw [Copying.change, Copying.change, hnumber]

theorem Later.mapBinding {before after : Copying} (h : Later before after) {element : FromElement}
    (hmem : ∀ part ∈ element.chain, part.uid ∈ before.keys) :
    element.mapBinding (after.change rebinding) = element.mapBinding (before.change rebinding) :=
  FromElement.mapBinding_congr fun part hpart => h.change (hmem part hpart)

theorem Gives.mono {before after : Copying} (h : Later before after) {element copy : FromElement}
    (hgives : before.Gives rebinding element copy) : after.Gives rebinding element copy :=
  ⟨fun part hpart => h.keys (hgives.1 part hpart), hgives.2.trans (h.mapBinding hgives.1).symm⟩

end Copying

/-- The law of the table of a copy. -/
def copyLaw (rebinding : Rebinding) (marks : Narrowings) (elements : List FromElement)
    (start : Nat) : Resolved.Replacement Copying where
  allowed element := element ∈ elements
  good := Copying.Good rebinding marks elements start
  later := Copying.Later
  gives := Copying.Gives rebinding
  refl := Copying.Later.refl
  trans := Copying.Later.trans
  mono := fun hlater hgives => Copying.Gives.mono hlater hgives
  unique := fun h h' => h.2.trans h'.2.symm

/-! ## Copying an element -/

section

variable {rebinding : Rebinding} {marks : Narrowings} {elements : List FromElement} {start : Nat}
  {state : Copying}

theorem Copying.Good.number_lt (h : state.Good rebinding marks elements start)
    {known : CopiedElement} (hknown : known ∈ state.copied) : known.copy.uid < state.nextUid := by
  have hmem : known.copy.uid ∈ List.range' start state.copied.length := by
    rw [← h.numbers]
    exact List.mem_reverse.mpr (List.mem_map.mpr ⟨known, hknown, rfl⟩)
  rw [h.next]
  exact (List.mem_range'_1.mp hmem).2

/-- The marks of an element taken along to a new number are the marks of that number. -/
theorem of_transfer_new {source : Narrowings} {old new : Nat}
    (hnew : ∀ mark ∈ marks, mark.uid < new) :
    (marks.transfer source old new).of new = source.of old := by
  have hnone : marks.of new = [] := by
    refine List.filterMap_eq_nil_iff.mpr fun mark hmark => ?_
    rw [if_neg (Nat.ne_of_lt (hnew mark hmark))]
  rw [Narrowings.of_transfer_self, hnone, List.nil_append]

theorem of_transfer_other {source : Narrowings} {old new other : Nat} (hother : other < new) :
    (marks.transfer source old new).of other = marks.of other := by
  have hnone : Narrowings.of ((source.of old).map fun target => ⟨new, target⟩) other = [] := by
    refine List.filterMap_eq_nil_iff.mpr fun mark hmark => ?_
    obtain ⟨target, -, rfl⟩ := List.mem_map.mp hmark
    rw [if_neg (Nat.ne_of_gt hother)]
  rw [Narrowings.transfer, Narrowings.of_append, hnone, List.append_nil]

/-- The state when one more element was copied. -/
def copyFresh (rebinding : Rebinding) (marks : Narrowings) (binding : Binding)
    (make : Binding → FromElement) (state : Copying) : Copying :=
  ((rebinding.fresh marks binding make).run state).2

theorem copyFresh_later {binding : Binding} {make : Binding → FromElement}
    (hnew : binding.uid ∉ state.keys) :
    state.Later (copyFresh rebinding marks binding make state) :=
  ⟨[⟨binding.uid, make { binding with uid := state.nextUid, type := rebinding.type binding }⟩], rfl,
    fun known hknown => by rw [List.mem_singleton.mp hknown]; exact hnew⟩

/-- The copy of an element that is made when all that it was reached by is copied. -/
theorem fresh_records (hgood : state.Good rebinding marks elements start) {element : FromElement}
    {make : Binding → FromElement} (hmem : element ∈ elements)
    (hnew : element.uid ∉ state.keys)
    (hchain : ∀ part ∈ element.chain, part = element ∨ part.uid ∈ state.keys)
    (hbinding : ∀ binding, (make binding).binding = binding)
    (hmake : ∀ after, state.Later after →
      element.mapBinding (after.change rebinding) = make (after.change rebinding element.binding)) :
    let after := copyFresh rebinding marks element.binding make state
    after.Good rebinding marks elements start
      ∧ after.Gives rebinding element
        ((rebinding.fresh marks element.binding make).run state).1 := by
  intro after
  let copied : Binding :=
    { element.binding with uid := state.nextUid, type := rebinding.type element.binding }
  have hlater : state.Later after := copyFresh_later hnew
  have hcopied : after.copied = ⟨element.uid, make copied⟩ :: state.copied := rfl
  have hkeys : after.keys = element.uid :: state.keys := rfl
  have huid : (make copied).uid = state.nextUid := congrArg Binding.uid (hbinding copied)
  have hnumber : after.number element.uid = state.nextUid := by
    rw [Copying.number, hcopied, List.find?_cons_of_pos (by simp)]
    exact huid
  have hgives : after.Gives rebinding element (make copied) := by
    refine ⟨fun part hpart => ?_, ?_⟩
    · rw [hkeys]
      rcases hchain part hpart with rfl | hold
      · exact List.mem_cons_self
      · exact List.mem_cons_of_mem _ hold
    · rw [hmake after hlater, Copying.change]
      have huid' : after.number element.binding.uid = state.nextUid := hnumber
      rw [huid']
  refine ⟨?_, hgives⟩
  exact {
    keys := by
      rw [hkeys]
      exact List.nodup_cons.mpr ⟨hnew, hgood.keys⟩
    next := by
      rw [hcopied, List.length_cons]
      have hnext : after.nextUid = state.nextUid + 1 := rfl
      rw [hnext, hgood.next]
      omega
    numbers := by
      rw [hcopied, List.map_cons, List.reverse_cons, hgood.numbers, List.length_cons,
        List.range'_concat, huid, hgood.next, Nat.one_mul]
    known := by
      intro known hknown
      rw [hcopied] at hknown
      rcases List.mem_cons.mp hknown with rfl | hold
      · exact ⟨element, hmem, rfl, hgives⟩
      · obtain ⟨original, horiginal, hsame, hgiven⟩ := hgood.known known hold
        exact ⟨original, horiginal, hsame, hgiven.mono hlater⟩
    marks := by
      have hmarks : after.narrowings
          = state.narrowings.transfer marks element.binding.uid state.nextUid := rfl
      intro known hknown
      rw [hmarks]
      rw [hcopied] at hknown
      rcases List.mem_cons.mp hknown with rfl | hold
      · rw [huid]
        exact of_transfer_new hgood.bounded
      · rw [of_transfer_other (hgood.number_lt hold), hgood.marks known hold]
    bounded := by
      have hmarks : after.narrowings
          = state.narrowings.transfer marks element.binding.uid state.nextUid := rfl
      have hnext : after.nextUid = state.nextUid + 1 := rfl
      intro mark hmark
      rw [hmarks, Narrowings.transfer] at hmark
      rw [hnext]
      rcases List.mem_append.mp hmark with hold | hnew
      · exact Nat.lt_succ_of_lt (hgood.bounded mark hold)
      · obtain ⟨target, -, rfl⟩ := List.mem_map.mp hnew
        exact Nat.lt_succ_self _ }

/-- What is known when an element was copied: nothing but the way to the element was copied with
it. -/
structure Recorded (rebinding : Rebinding) (marks : Narrowings) (elements : List FromElement)
    (start : Nat) (state : Copying) (element : FromElement) (outcome : FromElement × Copying) :
    Prop where
  good : outcome.2.Good rebinding marks elements start
  later : state.Later outcome.2
  gives : outcome.2.Gives rebinding element outcome.1
  keys : ∀ uid ∈ outcome.2.keys, uid ∈ state.keys ∨ ∃ part ∈ element.chain, part.uid = uid

theorem once_known {known : CopiedElement} {uid : Nat}
    (h : (state.copied.find? fun known => known.uid == uid) = some known)
    (make : StateM Copying FromElement) :
    (Rebinding.once uid make).run state = (known.copy, state) := by
  simp only [Rebinding.once, StateT.run_bind, StateT.run_get, pure_bind, h]
  rfl

theorem once_new {uid : Nat} (h : (state.copied.find? fun known => known.uid == uid) = none)
    (make : StateM Copying FromElement) :
    (Rebinding.once uid make).run state = make.run state := by
  simp only [Rebinding.once, StateT.run_bind, StateT.run_get, pure_bind, h]

theorem once_recorded (hgood : state.Good rebinding marks elements start)
    (hunique : ∀ element ∈ elements, ∀ other ∈ elements, element.uid = other.uid → element = other)
    {element : FromElement} (hmem : element ∈ elements) {make : StateM Copying FromElement}
    (hmake : element.uid ∉ state.keys →
      Recorded rebinding marks elements start state element (make.run state)) :
    Recorded rebinding marks elements start state element
      ((Rebinding.once element.uid make).run state) := by
  cases hfind : state.copied.find? fun known => known.uid == element.uid with
  | none =>
    rw [once_new hfind]
    refine hmake fun hkey => ?_
    obtain ⟨known, hknown, hsame⟩ := List.mem_map.mp hkey
    exact List.find?_eq_none.mp hfind known hknown (beq_iff_eq.mpr hsame)
  | some known =>
    have hknown := List.mem_of_find?_eq_some hfind
    have hsame : known.uid = element.uid := by simpa using List.find?_some hfind
    obtain ⟨original, horiginal, huid, hgives⟩ := hgood.known known hknown
    have hself : original = element := hunique original horiginal element hmem (huid.trans hsame)
    rw [hself] at hgives
    rw [once_known hfind]
    exact ⟨hgood, .refl state, hgives, fun uid huid => .inl huid⟩

/-- An element that was reached by nothing but itself. -/
theorem fresh_recorded (hgood : state.Good rebinding marks elements start) {element : FromElement}
    {make : Binding → FromElement} (hmem : element ∈ elements) (hnew : element.uid ∉ state.keys)
    (hchain : element.chain = [element]) (hbinding : ∀ binding, (make binding).binding = binding)
    (hmake : ∀ change : Binding → Binding,
      element.mapBinding change = make (change element.binding)) :
    Recorded rebinding marks elements start state element
      ((rebinding.fresh marks element.binding make).run state) := by
  have hself : ∀ part ∈ element.chain, part = element ∨ part.uid ∈ state.keys := by
    intro part hpart
    rw [hchain] at hpart
    exact .inl (List.mem_singleton.mp hpart)
  obtain ⟨hafter, hgives⟩ :=
    fresh_records hgood hmem hnew hself hbinding fun after _ => hmake (after.change rebinding)
  refine ⟨hafter, copyFresh_later hnew, hgives, fun uid huid => ?_⟩
  rcases List.mem_cons.mp huid with rfl | hold
  · exact .inr ⟨element, element.mem_chain_self, rfl⟩
  · exact .inl hold

/-- An element that was reached by another one, which is copied first. -/
theorem reached_recorded (make : FromElement → Binding → FromElement)
    (hunique : ∀ element ∈ elements, ∀ other ∈ elements, element.uid = other.uid → element = other)
    (hclosed : ∀ element ∈ elements, element.chain ⊆ elements) {element source : FromElement}
    (hmem : element ∈ elements)
    (hnew : element.uid ∉ state.keys) (hchain : element.chain = element :: source.chain)
    (hbinding : ∀ source binding, (make source binding).binding = binding)
    (hmake : ∀ change : Binding → Binding,
      element.mapBinding change = make (source.mapBinding change) (change element.binding))
    (hsource : Recorded rebinding marks elements start state source
      ((rebinding.element marks source).run state)) :
    Recorded rebinding marks elements start state element
      ((do
        let source ← rebinding.element marks source
        rebinding.fresh marks element.binding (make source) : StateM Copying FromElement).run
          state) := by
  let outcome := (rebinding.element marks source).run state
  change Recorded rebinding marks elements start state element
    ((rebinding.fresh marks element.binding (make outcome.1)).run outcome.2)
  -- No part of the way to an element is the element itself.
  have hproper : ∀ part ∈ source.chain, part.uid ≠ element.uid := by
    intro part hpart hsame
    have hpart' : part ∈ element.chain := by
      rw [hchain]
      exact List.mem_cons_of_mem _ hpart
    have hself := hunique part (hclosed element hmem hpart') element hmem hsame
    have hlength := FromElement.length_chain_le hpart
    rw [hself, hchain, List.length_cons] at hlength
    omega
  have hnew' : element.uid ∉ outcome.2.keys := by
    intro hkey
    rcases hsource.keys _ hkey with hold | ⟨part, hpart, hsame⟩
    · exact hnew hold
    · exact hproper part hpart hsame
  have hself : ∀ part ∈ element.chain, part = element ∨ part.uid ∈ outcome.2.keys := by
    intro part hpart
    rw [hchain] at hpart
    rcases List.mem_cons.mp hpart with hsame | hpart
    · exact .inl hsame
    · exact .inr (hsource.gives.1 part hpart)
  obtain ⟨hafter, hgives⟩ :=
    fresh_records hsource.good hmem hnew' hself (hbinding outcome.1) fun after hlater => by
      rw [hmake, hsource.gives.2, hlater.mapBinding hsource.gives.1]
  refine ⟨hafter, hsource.later.trans (copyFresh_later hnew'), hgives, fun uid huid => ?_⟩
  rcases List.mem_cons.mp huid with rfl | hold
  · exact .inr ⟨element, element.mem_chain_self, rfl⟩
  · rcases hsource.keys uid hold with hold | ⟨part, hpart, hsame⟩
    · exact .inl hold
    · refine .inr ⟨part, ?_, hsame⟩
      rw [hchain]
      exact List.mem_cons_of_mem _ hpart

end

section

variable {rebinding : Rebinding} {marks : Narrowings} {elements : List FromElement} {start : Nat}

theorem element_recorded
    (hunique : ∀ element ∈ elements, ∀ other ∈ elements, element.uid = other.uid → element = other)
    (hclosed : ∀ element ∈ elements, element.chain ⊆ elements) (element : FromElement)
    (hmem : element ∈ elements) (state : Copying)
    (hgood : state.Good rebinding marks elements start) :
    Recorded rebinding marks elements start state element
      ((rebinding.element marks element).run state) := by
  induction element generalizing state with
  | root binding =>
    exact once_recorded hgood hunique hmem fun hnew =>
      fresh_recorded hgood hmem hnew rfl (fun _ => rfl) fun _ => rfl
  | crossJoin binding =>
    exact once_recorded hgood hunique hmem fun hnew =>
      fresh_recorded hgood hmem hnew rfl (fun _ => rfl) fun _ => rfl
  | entityJoin binding joinType =>
    exact once_recorded hgood hunique hmem fun hnew =>
      fresh_recorded hgood hmem hnew rfl (fun _ => rfl) fun _ => rfl
  | attributeJoin binding source join ih =>
    have hsource : source ∈ elements :=
      hclosed _ hmem (List.mem_cons_of_mem _ source.mem_chain_self)
    exact once_recorded hgood hunique hmem fun hnew =>
      reached_recorded (fun source copied => .attributeJoin copied source join) hunique hclosed
        hmem hnew rfl (fun _ _ => rfl) (fun _ => rfl) (ih hsource state hgood)
  | treated binding wrapped ih =>
    have hwrapped : wrapped ∈ elements :=
      hclosed _ hmem (List.mem_cons_of_mem _ wrapped.mem_chain_self)
    exact once_recorded hgood hunique hmem fun hnew =>
      reached_recorded (fun wrapped copied => .treated copied wrapped) hunique hclosed hmem hnew
        rfl (fun _ _ => rfl) (fun _ => rfl) (ih hwrapped state hgood)

/-- Copying records the copies, if elements are told apart by their numbers. -/
theorem copyLaw_records
    (hunique : ∀ element ∈ elements, ∀ other ∈ elements, element.uid = other.uid → element = other)
    (hclosed : ∀ element ∈ elements, element.chain ⊆ elements) :
    (copyLaw rebinding marks elements start).Records (rebinding.element marks) := by
  intro element hmem state hgood
  have hrecorded := element_recorded hunique hclosed element hmem state hgood
  exact ⟨hrecorded.good, hrecorded.later, hrecorded.gives⟩

end

end Splitting
end EntityQuery

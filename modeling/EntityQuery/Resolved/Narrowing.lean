import EntityQuery.Resolved.FromElement

/-!
# Narrowings

Where a query narrows an element to an entity, the element is marked with that entity. Marks are
collected while a query is interpreted and are kept beside the elements, so that a mark made late
shows wherever the element was used before.
-/

namespace EntityQuery

/-- The mark of an element with an entity that it is narrowed to. -/
structure Narrowing where
  uid : Nat
  target : EntityReference
  deriving DecidableEq, Repr

/-- All marks, in the order in which they were made. -/
abbrev Narrowings := List Narrowing

namespace Narrowings

/-- The entities that an element is marked with. -/
def of (marks : Narrowings) (uid : Nat) : List EntityReference :=
  marks.filterMap fun mark => if mark.uid = uid then some mark.target else none

/-- Marks an element, unless it is marked with an entity of that name. -/
def add (marks : Narrowings) (uid : Nat) (target : EntityReference) : Narrowings :=
  if (marks.of uid).any fun known => known.name == target.name then marks
  else marks ++ [⟨uid, target⟩]

/-- The marks that an element has in another table, given to a new element. -/
def transfer (marks source : Narrowings) (old new : Nat) : Narrowings :=
  marks ++ (source.of old).map fun target => ⟨new, target⟩

@[simp] theorem of_nil (uid : Nat) : Narrowings.of [] uid = [] := rfl

@[simp] theorem of_append (a b : Narrowings) (uid : Nat) :
    Narrowings.of (a ++ b) uid = Narrowings.of a uid ++ Narrowings.of b uid := by
  simp [Narrowings.of]

/-- Marking an element leaves the marks of all others. -/
theorem of_add_of_ne {marks : Narrowings} {uid other : Nat} {target : EntityReference}
    (h : uid ≠ other) : (marks.add uid target).of other = marks.of other := by
  unfold add
  split
  · rfl
  · simp [Narrowings.of, h]

theorem of_cons_self (target : EntityReference) (marks : Narrowings) (uid : Nat) :
    Narrowings.of (⟨uid, target⟩ :: marks) uid = target :: marks.of uid := by
  simp [Narrowings.of]

/-- Marks given to one element are all marks of it. -/
theorem of_map_mark (targets : List EntityReference) (uid : Nat) :
    Narrowings.of (targets.map fun target => ⟨uid, target⟩) uid = targets := by
  induction targets with
  | nil => rfl
  | cons target targets ih => rw [List.map_cons, of_cons_self, ih]

theorem of_transfer_self (marks source : Narrowings) (old new : Nat) :
    (marks.transfer source old new).of new = marks.of new ++ source.of old := by
  rw [transfer, of_append, of_map_mark]

end Narrowings
end EntityQuery

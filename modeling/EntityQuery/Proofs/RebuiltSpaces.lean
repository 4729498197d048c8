import EntityQuery.Proofs.OpenLevels
import EntityQuery.Proofs.Rebuilding

/-!
# Open spaces built anew

An open space is built anew like a finished one: its root and its joined elements are replaced and
the restrictions of its joins are built anew. Numbers are replaced one by one.

* `OpenSpace.rebuilt`.
* `OpenSpace.contains_rebuilt`, `OpenSpace.restrict_rebuilt`: what is found by a number is found by
  the number that replaces it.
* `Levels.close_rebuilt`: the finished spaces.
-/

namespace EntityQuery.Interpretation

open Resolved (Join Space)

variable {retypes : Bool} {visit : FromElement → FromElement} {number : Nat → Nat}

theorem element_rebuilt (join : Join) :
    (join.rebuilt retypes visit).element = visit join.element := by
  obtain ⟨element, restriction⟩ := join
  rw [Join.rebuilt_mk]
  rfl

namespace OpenSpace

variable (retypes visit) in
/-- The open space with other elements. -/
def rebuilt : OpenSpace → OpenSpace
  | vacant => vacant
  | rooted root joins => rooted (visit root) (joins.map (Join.rebuilt retypes visit))

theorem root?_rebuilt (space : OpenSpace) :
    (space.rebuilt retypes visit).root? = space.root?.map visit := by
  cases space <;> rfl

theorem elements_rebuilt (space : OpenSpace) :
    (space.rebuilt retypes visit).elements = space.elements.map visit := by
  cases space with
  | vacant => rfl
  | rooted root joins =>
    rw [rebuilt, elements, elements, List.map_cons, List.map_map, List.map_map]
    exact congrArg (List.cons _) (List.map_congr_left fun join _ => element_rebuilt join)

section

variable (huid : ∀ element, (visit element).uid = number element.uid)
  (hnumber : Function.Injective number)
include huid hnumber

theorem contains_rebuilt (space : OpenSpace) (uid : Nat) :
    (space.rebuilt retypes visit).contains (number uid) = space.contains uid := by
  rw [contains, elements_rebuilt, List.any_map, contains]
  refine congrArg (List.any space.elements) (funext fun element => ?_)
  rw [Function.comp_apply, huid, Bool.eq_iff_iff, beq_iff_eq, beq_iff_eq, hnumber.eq_iff]

theorem restrictJoins_rebuilt (uid : Nat) (restriction : Resolved.Predicate) (joins : List Join) :
    restrictJoins (number uid) (restriction.rebuilt retypes visit)
        (joins.map (Join.rebuilt retypes visit))
      = (restrictJoins uid restriction joins).map (Join.rebuilt retypes visit) := by
  have hsame (element : FromElement) :
      ((visit element).uid == number uid) = (element.uid == uid) := by
    rw [huid, Bool.eq_iff_iff, beq_iff_eq, beq_iff_eq, hnumber.eq_iff]
  induction joins with
  | nil => rfl
  | cons join joins ih =>
    rw [List.map_cons, restrictJoins, restrictJoins, element_rebuilt, hsame, ih]
    split
    · rw [List.map_cons, Join.rebuilt_mk]
      rfl
    · rfl

theorem restrict_rebuilt (space : OpenSpace) (uid : Nat) (restriction : Resolved.Predicate) :
    (space.rebuilt retypes visit).restrict (number uid) (restriction.rebuilt retypes visit)
      = (space.restrict uid restriction).rebuilt retypes visit := by
  cases space with
  | vacant => rfl
  | rooted root joins =>
    exact congrArg (rooted _) (restrictJoins_rebuilt huid hnumber uid restriction joins)

end

theorem setRoot_rebuilt {space filled : OpenSpace} {element : FromElement}
    (h : space.setRoot element = .ok filled) :
    (space.rebuilt retypes visit).setRoot (visit element) = .ok (filled.rebuilt retypes visit) := by
  cases space with
  | vacant =>
    cases h
    rfl
  | rooted root joins => cases h

theorem addJoin_rebuilt {space filled : OpenSpace} {element : FromElement}
    (h : space.addJoin element = .ok filled) :
    (space.rebuilt retypes visit).addJoin (visit element) = .ok (filled.rebuilt retypes visit) := by
  cases space with
  | vacant => cases h
  | rooted root joins =>
    cases h
    rw [rebuilt, rebuilt, List.map_append, List.map_singleton, Join.rebuilt_mk]
    rfl

end OpenSpace

namespace Levels

theorem close_rebuilt {spaces : List OpenSpace} {closed : List Space}
    (h : Levels.close spaces = .ok closed) :
    Levels.close (spaces.map (OpenSpace.rebuilt retypes visit))
      = .ok (closed.map (Space.rebuilt retypes visit)) := by
  induction spaces generalizing closed with
  | nil =>
    cases h
    rfl
  | cons space spaces ih =>
    obtain ⟨root, joins, rest, rfl, hrest, rfl⟩ := close_cons h
    have hlater := ih hrest
    rw [close] at hlater ⊢
    rw [List.map_cons, List.mapM_cons, hlater, List.map_cons, Space.rebuilt_mk]
    rfl

end Levels
end EntityQuery.Interpretation

import EntityQuery.Splitting.Copy

/-!
# Splitting

A query over a polymorphic name stands for one query for each entity that implements the name. All
roots with such a name are replaced, the first one varying slowest.

* `Query.split`: the queries that a query stands for; a query without polymorphic roots stands for
  itself.
-/

namespace EntityQuery.Splitting

/-- A root over a polymorphic name. -/
structure PolymorphicRoot where
  uid : Nat
  polymorphic : Polymorphic

namespace PolymorphicRoot

def ofElement? (element : FromElement) : Option PolymorphicRoot :=
  match element.type with
  | .polymorphic polymorphic => some ⟨element.uid, polymorphic⟩
  | _ => none

end PolymorphicRoot

namespace Query

/-- The roots over polymorphic names in the order of their spaces. -/
def polymorphicRoots (query : Query) : List PolymorphicRoot :=
  query.select.roots.filterMap PolymorphicRoot.ofElement?

/-- One copy for each entity; the numbers of one copy come after those of the copy before. -/
def copies (query : Query) (uid : Nat) : List Entity → Nat → List Query
  | [], _ => []
  | entity :: entities, nextUid =>
    let (copy, nextUid) := query.copy ⟨uid, entity⟩ nextUid
    copy :: copies query uid entities nextUid

/-- The copies in which one root is replaced by each of its entities. -/
def splitRoot (query : Query) (root : PolymorphicRoot) : List Query :=
  query.copies root.uid root.polymorphic.implementors (query.select.greatestUid + 1)

/-- The queries in which at most `count` roots are replaced. -/
def splitRoots : Nat → Query → List Query
  | 0, query => [query]
  | count + 1, query =>
    match query.polymorphicRoots with
    | [] => [query]
    | root :: _ => (query.splitRoot root).flatMap (splitRoots count)

/-- The queries that a query stands for; each copy has a polymorphic root less. -/
def split (query : Query) : List Query := splitRoots query.polymorphicRoots.length query

/-- The query stands for itself. -/
def isWhole (query : Query) : Bool := query.polymorphicRoots.isEmpty

theorem split_of_isWhole {query : Query} (h : query.isWhole = true) : query.split = [query] := by
  simp only [isWhole, List.isEmpty_iff] at h
  simp [split, h, splitRoots]

end Query
end EntityQuery.Splitting

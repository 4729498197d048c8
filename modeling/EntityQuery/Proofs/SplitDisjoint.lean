import EntityQuery.Proofs.SplitNumbers
import EntityQuery.Proofs.WellScoped

/-!
# Parts that share no numbers

Splitting starts the numbers of every copy behind those of what it copies, not behind those of all
parts made so far. With one polymorphic root the parts have numbers of their own. With more, parts
whose implementors stand at positions of the same sum have the same numbers.

* `BuiltStatement.splittable`: a query that was built can be split.
* `split_fresh`, `split_disjoint_original`: no part shares a number with the query.
* `split_pairwise_disjoint_iff`: when the parts share none with each other.
* `interpretPhrase_split_disjoint_iff`: both for every query that has a meaning.
-/

namespace EntityQuery

open Interpretation Resolved Splitting

/-- The roots of a query are among the elements that it binds, in their order. -/
theorem Resolved.Select.roots_sublist (select : Select) :
    select.roots.Sublist select.boundElements := by
  obtain ⟨spaces, distinct, selections, restriction, order, limit, offset⟩ := select
  have hspaces : (spaces.map Space.root).Sublist (spacesBound spaces) := by
    induction spaces with
    | nil => exact List.nil_sublist _
    | cons space spaces ih =>
      obtain ⟨root, joins⟩ := space
      refine List.Sublist.cons_cons root (List.Sublist.trans ih ?_)
      exact List.sublist_append_right _ _
  refine List.Sublist.trans hspaces ?_
  simp only [Select.boundElements, List.append_assoc]
  exact List.sublist_append_left _ _

/-- A query that was built can be split. -/
theorem Interpretation.BuiltStatement.splittable {schema : Schema} {clean : Prop} {select : Select}
    {context : Context} (h : BuiltStatement schema clean (.select select) context)
    (narrowings : Narrowings) : Query.Splittable ⟨select, narrowings⟩ where
  numbered := fun _ hmem _ hother hsame => h.unique hmem hother hsame
  apart := List.Nodup.sublist (List.Sublist.map _ select.roots_sublist) h.placedOnce

namespace Splitting

variable {query : Query} (hquery : query.Splittable)
include hquery

/-- The numbers of every part of a query with a polymorphic root come after those of the query. -/
theorem split_fresh (hroots : query.polymorphicRoots ≠ []) :
    ∀ part ∈ query.split, ∀ uid ∈ part.numbers, query.select.greatestUid < uid := by
  intro part hpart uid huid
  obtain ⟨first, rest, hcons⟩ := List.exists_cons_of_ne_nil hroots
  have hmem : part.numbers ∈ query.split.map Query.numbers := List.mem_map.mpr ⟨part, hpart, rfl⟩
  rw [split_numbers hquery hcons] at hmem
  obtain ⟨sum, -, hblock⟩ := List.mem_map.mp hmem
  rw [← hblock] at huid
  have hge := (Finset.mem_Ico.mp huid).1
  omega

/-- No part of a query with a polymorphic root shares a number with the query. -/
theorem split_disjoint_original (hroots : query.polymorphicRoots ≠ []) :
    ∀ part ∈ query.split, Disjoint part.numbers query.numbers := by
  intro part hpart
  refine Finset.disjoint_left.mpr fun uid huid hold => ?_
  have hle := Query.le_greatestUid hold
  have hgt := split_fresh hquery hroots part hpart uid huid
  omega

/-- The parts of a query share no numbers exactly if there are none or at most one polymorphic root
leaves a choice. -/
theorem split_pairwise_disjoint_iff :
    (query.split.Pairwise fun part other => Disjoint part.numbers other.numbers)
      ↔ (∃ root ∈ query.polymorphicRoots, root.polymorphic.implementors = [])
        ∨ (query.polymorphicRoots.filter fun root =>
            1 < root.polymorphic.implementors.length).length ≤ 1 := by
  cases hroots : query.polymorphicRoots with
  | nil =>
    have hwhole : query.split = [query] := Query.split_of_isWhole (by simp [Query.isWhole, hroots])
    rw [hwhole]
    simp
  | cons first rest =>
    have hpos := numbers_pos hroots
    have hfilter : (query.choices.filter (1 < ·)).length
        = (query.polymorphicRoots.filter fun root =>
          1 < root.polymorphic.implementors.length).length := by
      rw [Query.choices, List.filter_map, List.length_map]
      rfl
    have hzero : 0 ∈ query.choices
        ↔ ∃ root ∈ query.polymorphicRoots, root.polymorphic.implementors = [] := by
      simp [Query.choices]
    rw [← List.pairwise_map (f := Query.numbers) (R := Disjoint), split_numbers hquery hroots,
      List.pairwise_map, ← hroots, ← hfilter, ← hzero]
    by_cases hnone : 0 ∈ query.choices
    · rw [positionSums_eq_nil hnone]
      exact iff_of_true List.Pairwise.nil (.inl hnone)
    · rw [or_iff_right hnone, ← positionSums_nodup hnone]
      refine List.Pairwise.iff fun sum other => (disjoint_block hpos).trans ?_
      exact not_congr Nat.add_right_cancel_iff

end Splitting

theorem interpretPhrase_splittable {written : Phrase.Query} {schema : Schema} {meaning : Meaning}
    {select : Select} (h : interpretPhrase (.select written) schema = .ok meaning)
    (hselect : meaning.statement = .select select) :
    Query.Splittable ⟨select, meaning.narrowings⟩ := by
  have hplain : False → (Phrase.Statement.select written).Plain := False.elim
  obtain ⟨context, hbuilt, -⟩ := interpretPhrase_built hplain h
  rw [hselect] at hbuilt
  exact hbuilt.splittable meaning.narrowings

/-- When a query that has a meaning is split, no part shares a number with the query, and the parts
share none with each other exactly if there are none or at most one polymorphic root leaves a
choice. A query without polymorphic roots is its own only part. -/
theorem interpretPhrase_split_disjoint_iff {written : Phrase.Query} {schema : Schema}
    {meaning : Meaning} {select : Select}
    (h : interpretPhrase (.select written) schema = .ok meaning)
    (hselect : meaning.statement = .select select) :
    let query : Query := ⟨select, meaning.narrowings⟩
    (query.polymorphicRoots = [] → query.split = [query])
      ∧ (query.polymorphicRoots ≠ [] →
        ∀ part ∈ query.split, Disjoint part.numbers query.numbers)
      ∧ ((query.split.Pairwise fun part other => Disjoint part.numbers other.numbers)
        ↔ (∃ root ∈ query.polymorphicRoots, root.polymorphic.implementors = [])
          ∨ (query.polymorphicRoots.filter fun root =>
              1 < root.polymorphic.implementors.length).length ≤ 1) := by
  intro query
  have hquery : query.Splittable := interpretPhrase_splittable h hselect
  refine ⟨fun hnone => ?_, split_disjoint_original hquery, split_pairwise_disjoint_iff hquery⟩
  exact Query.split_of_isWhole (by simp [Query.isWhole, hnone])

/-! ## A domain of animals -/

/-- Cats and dogs have names. -/
def cat : Entity := ⟨"Cat", [⟨"name", .basic .string⟩]⟩

def dog : Entity := ⟨"Dog", [⟨"name", .basic .string⟩]⟩

/-- Animals are cats or dogs and have no table of their own. -/
def kennel : Metamodel where
  entities := [cat, dog]
  polymorphic := [⟨"Animal", [cat, dog]⟩]

def pairsText : String := "select a, b from Animal a, Animal b"

/-- The query that a text is read as has a meaning that passes a test. -/
def selectPasses (text : String) (schema : Schema) (test : Query → Bool) : Bool :=
  match Phrase.Statement.ofText text with
  | .ok (.select written) =>
    match interpretPhrase (.select written) schema with
    | .ok ⟨.select select, narrowings, _⟩ => test ⟨select, narrowings⟩
    | _ => false
  | _ => false

theorem exists_of_selectPasses {text : String} {schema : Schema} {test : Query → Bool}
    (h : selectPasses text schema test = true) :
    ∃ written meaning select, Phrase.Statement.ofText text = .ok (.select written)
      ∧ interpretPhrase (.select written) schema = .ok meaning
      ∧ meaning.statement = .select select ∧ test ⟨select, meaning.narrowings⟩ = true := by
  unfold selectPasses at h
  split at h
  · rename_i written hread
    split at h
    · rename_i select narrowings advisories hmeaning
      exact ⟨written, ⟨.select select, narrowings, advisories⟩, select, hread, hmeaning, rfl, h⟩
    · cases h
  · cases h

/-- With two roots and two entities for each of them, parts share numbers. -/
theorem interpretPhrase_split_shares :
    ∃ written meaning select, Phrase.Statement.ofText pairsText = .ok (.select written)
      ∧ interpretPhrase (.select written) kennel.schema = .ok meaning
      ∧ meaning.statement = .select select
      ∧ ¬ (Query.split ⟨select, meaning.narrowings⟩).Pairwise fun part other =>
        Disjoint part.numbers other.numbers := by
  have hpasses : selectPasses pairsText kennel.schema
      (fun query => query.choices == [2, 2]) = true := by decide +kernel
  obtain ⟨written, meaning, select, hread, hmeaning, hselect, hchoices⟩ :=
    exists_of_selectPasses hpasses
  refine ⟨written, meaning, select, hread, hmeaning, hselect, fun hdisjoint => ?_⟩
  have hchoices : (Query.choices ⟨select, meaning.narrowings⟩) = [2, 2] := eq_of_beq hchoices
  rcases (interpretPhrase_split_disjoint_iff hmeaning hselect).2.2.mp hdisjoint with
    ⟨root, hroot, hnone⟩ | hle
  · have hmem : root.polymorphic.implementors.length ∈ Query.choices ⟨select, meaning.narrowings⟩ :=
      List.mem_map.mpr ⟨root, hroot, rfl⟩
    rw [hchoices, hnone] at hmem
    revert hmem
    decide
  · have hfilter : (Query.choices ⟨select, meaning.narrowings⟩).filter (1 < ·) = [2, 2] := by
      rw [hchoices]
      decide
    rw [Query.choices, List.filter_map] at hfilter
    have hlength := congrArg List.length hfilter
    rw [List.length_map] at hlength
    have htwo : (Query.polymorphicRoots ⟨select, meaning.narrowings⟩ |>.filter fun root =>
        1 < root.polymorphic.implementors.length).length = 2 := hlength
    omega

end EntityQuery

import EntityQuery.Interpretation.Context
import Mathlib.Data.List.Nodup

/-!
# Implicit joins

An implicit join is known by its source and the name of the attribute that it leads through. The
state of an interpretation remembers each one that was made, and a space holds it behind its source.

* `FromElement.implicitStep?`: the source and the attribute of an implicit join.
* `FromElement.isDeclared`: the variable of the element was written.
* `FromElement.Trailing`: implicit joins stand behind their sources.
* `Interpretation.Recalls`: the implicit joins that are remembered are those that are registered,
  one for each source and attribute.
-/

namespace EntityQuery

namespace FromElement

/-- The source of an implicit join with the name of the attribute that it leads through. -/
def implicitStep? : FromElement → Option (FromElement × String)
  | attributeJoin _ source join =>
    if join.implicit then some (source, join.declared.name) else none
  | _ => none

theorem implicitStep?_none {element : FromElement} (h : element.implicitStep? = none) :
    element.isImplicit = false := by
  cases element with
  | attributeJoin binding source join =>
    simp only [implicitStep?] at h
    split at h
    · cases h
    · rename_i hwritten
      simpa [isImplicit, join?] using hwritten
  | _ => rfl

/-- The element was written with a variable of its own. -/
def isDeclared (element : FromElement) : Bool :=
  !element.isImplicit && !element.binding.generated

/-- Every implicit join of the list comes after its source without narrowings. -/
def Trailing (elements : List FromElement) : Prop :=
  ∀ front element back, elements = front ++ element :: back → ∀ source name,
    element.implicitStep? = some (source, name) → source.unwrapped ∈ front

theorem trailing_nil : Trailing [] := by
  intro front element back h
  simp at h

/-- An element may be put at the end if it is no implicit join or its source is there. -/
theorem Trailing.append {elements : List FromElement} (h : Trailing elements)
    {element : FromElement}
    (helement : ∀ source name, element.implicitStep? = some (source, name) →
      source.unwrapped ∈ elements) : Trailing (elements ++ [element]) := by
  intro front other back heq source name hstep
  rcases List.eq_nil_or_concat back with rfl | ⟨init, last, rfl⟩
  · obtain ⟨rfl, hlast⟩ := List.append_inj' heq rfl
    cases hlast
    exact helement source name hstep
  · rw [List.concat_eq_append, ← List.cons_append, ← List.append_assoc] at heq
    obtain ⟨rfl, -⟩ := List.append_inj' heq rfl
    exact h front other init rfl source name hstep

end FromElement

namespace Interpretation

/-- What is remembered are the implicit joins that are registered, one for each source and
attribute. -/
structure Recalls (registered : List FromElement) (known : List KnownJoin) : Prop where
  remembered : ∀ join ∈ registered, ∀ source name, join.implicitStep? = some (source, name) →
    ⟨source.uid, name, join.uid⟩ ∈ known
  recalled : ∀ entry ∈ known, ∃ join ∈ registered, join.uid = entry.join
    ∧ ∃ source, join.implicitStep? = some (source, entry.declared) ∧ source.uid = entry.source
  once : (known.map fun entry => (entry.source, entry.declared)).Nodup

namespace Recalls

variable {registered : List FromElement} {known : List KnownJoin} {element : FromElement}

theorem empty : Recalls [] [] where
  remembered := fun _ h => by cases h
  recalled := fun _ h => by cases h
  once := List.nodup_nil

/-- An element that is no implicit join is not remembered. -/
theorem register (h : Recalls registered known) (hstep : element.implicitStep? = none) :
    Recalls (element :: registered) known where
  remembered := by
    intro join hjoin source name hjoinStep
    rcases List.mem_cons.mp hjoin with rfl | hjoin
    · rw [hstep] at hjoinStep
      cases hjoinStep
    · exact h.remembered join hjoin source name hjoinStep
  recalled := by
    intro entry hentry
    obtain ⟨join, hjoin, hrest⟩ := h.recalled entry hentry
    exact ⟨join, List.mem_cons_of_mem _ hjoin, hrest⟩
  once := h.once

/-- An implicit join is remembered where none is known for its source and attribute. -/
theorem remember (h : Recalls registered known) {source : FromElement} {name : String}
    (hstep : element.implicitStep? = some (source, name))
    (hfresh : ∀ entry ∈ known, ¬(entry.source = source.uid ∧ entry.declared = name)) :
    Recalls (element :: registered) (⟨source.uid, name, element.uid⟩ :: known) where
  remembered := by
    intro join hjoin other declared hjoinStep
    rcases List.mem_cons.mp hjoin with rfl | hjoin
    · rw [hstep, Option.some.injEq, Prod.mk.injEq] at hjoinStep
      obtain ⟨rfl, rfl⟩ := hjoinStep
      exact List.mem_cons_self
    · exact List.mem_cons_of_mem _ (h.remembered join hjoin other declared hjoinStep)
  recalled := by
    intro entry hentry
    rcases List.mem_cons.mp hentry with rfl | hentry
    · exact ⟨element, List.mem_cons_self, rfl, source, hstep, rfl⟩
    · obtain ⟨join, hjoin, hrest⟩ := h.recalled entry hentry
      exact ⟨join, List.mem_cons_of_mem _ hjoin, hrest⟩
  once := by
    rw [List.map_cons, List.nodup_cons]
    refine ⟨fun hmem => ?_, h.once⟩
    obtain ⟨entry, hentry, hkey⟩ := List.mem_map.mp hmem
    rw [Prod.mk.injEq] at hkey
    exact hfresh entry hentry hkey

/-- Where no join is found for a source and an attribute, none is remembered. -/
theorem fresh {context : Context} (h : Recalls context.registered context.implicitJoins)
    {source : Nat} {name : String} (hnone : context.implicitJoin? source name = none)
    {entry : KnownJoin} (hentry : entry ∈ context.implicitJoins) :
    ¬(entry.source = source ∧ entry.declared = name) := by
  intro hkey
  rcases Option.bind_eq_none_iff.mp hnone with h'
  cases hfind : context.implicitJoins.find?
      (fun entry => entry.source == source && entry.declared == name) with
  | none =>
    have hother := List.find?_eq_none.mp hfind entry hentry
    simp [hkey.1, hkey.2] at hother
  | some found =>
    -- What is remembered is registered, so that it would have been found.
    obtain ⟨join, hjoin, huid, -⟩ := h.recalled found (List.mem_of_find?_eq_some hfind)
    have hmissing := List.find?_eq_none.mp (h' found hfind) join hjoin
    simp [huid] at hmissing

/-- Two implicit joins of one source over one attribute have the same number. -/
theorem same_uid (h : Recalls registered known) {one other source : FromElement} {name : String}
    (hone : one ∈ registered) (hother : other ∈ registered)
    (hstep : one.implicitStep? = some (source, name))
    (hstep' : other.implicitStep? = some (source, name)) : one.uid = other.uid := by
  have hfirst := h.remembered one hone source name hstep
  have hsecond := h.remembered other hother source name hstep'
  have hentry := List.inj_on_of_nodup_map h.once hfirst hsecond rfl
  exact congrArg KnownJoin.join hentry

/-- The join that is found for a source and an attribute leads through that attribute. -/
theorem found (h : Recalls registered known) {source : Nat} {name : String} {entry : KnownJoin}
    (hentry : known.find? (fun entry => entry.source == source && entry.declared == name)
      = some entry) :
    ∃ join ∈ registered, join.uid = entry.join
      ∧ ∃ start, join.implicitStep? = some (start, name) ∧ start.uid = source := by
  have hkey := List.find?_some hentry
  simp only [Bool.and_eq_true, beq_iff_eq] at hkey
  obtain ⟨rfl, rfl⟩ := hkey
  exact h.recalled entry (List.mem_of_find?_eq_some hentry)

end Recalls
end Interpretation
end EntityQuery

import EntityQuery.Interpretation.Path
import EntityQuery.Proofs.Rebuilding
import EntityQuery.Proofs.TrailFrames
import Mathlib.Data.List.Basic

/-!
# Elements with entities in place of polymorphic names

Some roots over polymorphic names get an entity that implements the name as their type. Nothing else
of an element changes, and an attribute that the name declares is declared by the entity, too, so
that a look-up which succeeds before and after leads to the same element.

* `Choice`: the entities, by the numbers of the roots; `FromElement.rebound`: the element with them.
* `FromElement.Covered`: an entity that an element gets implements the name that it had.
* `Trail.rebound`, `Trail.element?_rebound`, `Trail.frames_rebound`: scopes.
* `bareOwner_rebound`: the owner of a bare attribute.
-/

namespace EntityQuery

/-- The entities that take the place of polymorphic names, by the numbers of the roots. -/
abbrev Choice := Nat → Option Entity

namespace Choice

/-- No root gets another type. -/
def none : Choice := fun _ => Option.none

end Choice

/-- The binding with the type that is chosen for its number. -/
def Binding.rebound (choice : Choice) (binding : Binding) : Binding :=
  { binding with type := ((choice binding.uid).map TypeDescriptor.entity).getD binding.type }

namespace FromElement

variable {choice other : Choice} {element : FromElement}

/-- The element with the chosen types, on the whole way to it. -/
def rebound (choice : Choice) (element : FromElement) : FromElement :=
  element.mapBinding (Binding.rebound choice)

@[simp] theorem uid_rebound : (element.rebound choice).uid = element.uid := by
  rw [uid, rebound, binding_mapBinding]
  rfl

@[simp] theorem aliasName_rebound : (element.rebound choice).aliasName = element.aliasName := by
  rw [aliasName, rebound, binding_mapBinding]
  rfl

@[simp] theorem generated_rebound :
    (element.rebound choice).binding.generated = element.binding.generated := by
  rw [rebound, binding_mapBinding]
  rfl

@[simp] theorem rebound_join? : (element.rebound choice).join? = element.join? := join?_mapBinding

@[simp] theorem isImplicit_rebound : (element.rebound choice).isImplicit = element.isImplicit := by
  rw [isImplicit, rebound_join?]
  rfl

@[simp] theorem collection?_rebound :
    (element.rebound choice).collection? = element.collection? := by
  rw [collection?, rebound_join?]
  rfl

@[simp] theorem unwrapped_rebound :
    (element.rebound choice).unwrapped = element.unwrapped.rebound choice := unwrapped_mapBinding

theorem type_rebound : (element.rebound choice).type
    = ((choice element.uid).map TypeDescriptor.entity).getD element.type := by
  rw [type, rebound, binding_mapBinding]
  rfl

/-- An element without an entity of its own keeps its type. -/
theorem type_rebound_of_none (h : choice element.uid = none) :
    (element.rebound choice).type = element.type := by
  rw [type_rebound, h]
  rfl

/-- Only the choices for the numbers on the way to an element matter. -/
theorem rebound_congr (h : ∀ part ∈ element.chain, choice part.uid = other part.uid) :
    element.rebound choice = element.rebound other := by
  refine mapBinding_congr fun part hpart => ?_
  have hpart : choice part.binding.uid = other part.binding.uid := h part hpart
  rw [Binding.rebound, Binding.rebound, hpart]

/-- With nothing chosen, an element is what it was. -/
theorem rebound_none (element : FromElement) : element.rebound Choice.none = element := by
  induction element with
  | attributeJoin binding source join ih => exact congrArg (attributeJoin binding · join) ih
  | treated binding wrapped ih => exact congrArg (treated binding) ih
  | _ => rfl

/-- The entity that is chosen for an element implements the name that the element is over. -/
def Covered (choice : Choice) (element : FromElement) : Prop :=
  ∀ entity, choice element.uid = some entity →
    ∃ polymorphic, element.type = .polymorphic polymorphic ∧ entity ∈ polymorphic.implementors

theorem covered_of_none (h : choice element.uid = none) : element.Covered choice := by
  intro entity hentity
  rw [h] at hentity
  cases hentity

/-- What an element declares, it declares with the chosen types as well. -/
theorem Covered.declared? (h : element.Covered choice) {name : String} {declared : Attribute}
    (hdeclared : element.type.declared? name = some declared) :
    (element.rebound choice).type.declared? name = some declared := by
  cases hchoice : choice element.uid with
  | none => rw [type_rebound_of_none hchoice, hdeclared]
  | some entity =>
    obtain ⟨polymorphic, htype, hentity⟩ := h entity hchoice
    rw [htype] at hdeclared
    rw [type_rebound, hchoice]
    exact Polymorphic.declared?_implementor hdeclared entity hentity

end FromElement

namespace Interpretation

open Resolved (Expression)

/-! ## Scopes -/

/-- The result variable with the chosen types. -/
def ResultVariable.rebound (choice : Choice) (result : ResultVariable) : ResultVariable :=
  { result with expression := result.expression.rebuilt true (FromElement.rebound choice) }

def Mark.rebound (choice : Choice) : Mark → Mark
  | opened => opened
  | element bound => element (bound.rebound choice)
  | selection result => selection (result.rebound choice)

namespace Trail

variable {choice : Choice}

/-- The trail with the chosen types. -/
def rebound (choice : Choice) (trail : Trail) : Trail := trail.map (Mark.rebound choice)

theorem isOpened_rebound (mark : Mark) : (mark.rebound choice).isOpened = mark.isOpened := by
  cases mark <;> rfl

theorem filterMap_element?_rebound (marks : List Mark) :
    (marks.map (Mark.rebound choice)).filterMap Mark.element?
      = (marks.filterMap Mark.element?).map (FromElement.rebound choice) := by
  rw [List.filterMap_map, List.map_filterMap]
  refine List.filterMap_congr fun mark _ => ?_
  cases mark <;> rfl

theorem filterMap_selection?_rebound (marks : List Mark) :
    (marks.map (Mark.rebound choice)).filterMap Mark.selection?
      = (marks.filterMap Mark.selection?).map (ResultVariable.rebound choice) := by
  rw [List.filterMap_map, List.map_filterMap]
  refine List.filterMap_congr fun mark _ => ?_
  cases mark <;> rfl

theorem current_rebound (trail : Trail) :
    current (rebound choice trail) = (current trail).map (Mark.rebound choice) := by
  have hopened : (fun mark : Mark => !mark.isOpened) ∘ Mark.rebound choice
      = fun mark => !mark.isOpened :=
    funext fun mark => congrArg not (isOpened_rebound mark)
  rw [current, rebound, List.takeWhile_map, hopened]
  rfl

theorem find?_rebound (aliasName : String) (elements : List FromElement) :
    (elements.map (FromElement.rebound choice)).find?
        (fun element => element.aliasName == aliasName)
      = (elements.find? fun element => element.aliasName == aliasName).map
        (FromElement.rebound choice) := by
  rw [List.find?_map]
  refine congrArg (Option.map _) (congrArg (List.find? · elements) ?_)
  funext element
  rw [Function.comp_apply, FromElement.aliasName_rebound]

theorem element?_rebound (trail : Trail) (aliasName : String) :
    element? (rebound choice trail) aliasName
      = (element? trail aliasName).map (FromElement.rebound choice) := by
  rw [element?, find?, rebound, filterMap_element?_rebound]
  exact find?_rebound aliasName _

theorem selection?_rebound (trail : Trail) (aliasName : String) :
    selection? (rebound choice trail) aliasName
      = (selection? trail aliasName).map (ResultVariable.rebound choice) := by
  rw [selection?, current_rebound, filterMap_selection?_rebound, List.find?_map]
  rfl

theorem outer?_rebound (trail : Trail) :
    outer? (rebound choice trail) = (outer? trail).map (rebound choice) := by
  induction trail with
  | nil => rfl
  | cons mark trail ih =>
    cases mark with
    | opened => rfl
    | element bound => exact ih
    | selection result => exact ih

theorem leave_rebound (trail : Trail) :
    leave (rebound choice trail) = rebound choice (leave trail) := by
  rw [leave, outer?_rebound, leave]
  cases outer? trail <;> rfl

theorem frames_rebound (trail : Trail) :
    frames (rebound choice trail) = (frames trail).map (List.map (FromElement.rebound choice)) := by
  induction trail with
  | nil => rfl
  | cons mark trail ih =>
    cases mark with
    | opened => exact congrArg ([] :: ·) ih
    | selection result => exact ih
    | element bound =>
      have hcons : rebound choice (.element bound :: trail)
          = .element (bound.rebound choice) :: rebound choice trail := rfl
      rw [hcons, frames_element, frames_element, ih]
      cases frames trail with
      | nil => rfl
      | cons frame outer => simp

end Trail

/-! ## Bare attributes -/

/-- An element that gets another type is bound where nothing is bound further out. -/
def Outermost (choice : Choice) : List (List FromElement) → Prop
  | [] => True
  | frame :: outer =>
    (∀ further ∈ outer, further = [])
      ∨ (∀ element ∈ frame, choice element.uid = none) ∧ Outermost choice outer

section

variable {choice : Choice} {name : String}

/-- Elements that keep their types stay the candidates that they are. -/
theorem candidates_rebound_of_none {frame : List FromElement}
    (h : ∀ element ∈ frame, choice element.uid = none) :
    candidates name (frame.map (FromElement.rebound choice))
      = (candidates name frame).map (FromElement.rebound choice) := by
  rw [candidates, candidates, List.filter_map]
  refine congrArg (List.map _) (List.filter_congr fun element helement => ?_)
  rw [Function.comp_apply, FromElement.isImplicit_rebound,
    FromElement.type_rebound_of_none (h element helement)]

/-- A candidate stays one, whatever type it gets. -/
theorem candidates_rebound {frame : List FromElement}
    (hcovered : ∀ element ∈ frame, element.Covered choice) {element : FromElement}
    (h : element ∈ candidates name frame) :
    element.rebound choice ∈ candidates name (frame.map (FromElement.rebound choice)) := by
  obtain ⟨hmem, hcandidate⟩ := List.mem_filter.mp h
  obtain ⟨himplicit, hdeclared⟩ := Bool.and_eq_true_iff.mp hcandidate
  obtain ⟨declared, hdeclared⟩ := Option.isSome_iff_exists.mp hdeclared
  refine List.mem_filter.mpr ⟨List.mem_map.mpr ⟨element, hmem, rfl⟩, Bool.and_eq_true_iff.mpr ?_⟩
  rw [FromElement.isImplicit_rebound, (hcovered element hmem).declared? hdeclared]
  exact ⟨himplicit, rfl⟩

theorem bareOwner_nil {frames : List (List FromElement)} (h : ∀ frame ∈ frames, frame = []) :
    bareOwner name frames = .ok none := by
  induction frames with
  | nil => rfl
  | cons frame outer ih =>
    rw [h frame List.mem_cons_self]
    exact ih fun further hfurther => h further (List.mem_cons_of_mem _ hfurther)

/-- An owner that is found before and after is the same element. An entity may declare more than the
name that it implements, but there is nothing further out that a look-up could have gone on to. -/
theorem bareOwner_rebound {frames : List (List FromElement)} {element found : FromElement}
    (hcovered : ∀ frame ∈ frames, ∀ element ∈ frame, element.Covered choice)
    (houtermost : Outermost choice frames) (h : bareOwner name frames = .ok (some element))
    (h' : bareOwner name (frames.map (List.map (FromElement.rebound choice)))
      = .ok (some found)) : found = element.rebound choice := by
  induction frames with
  | nil => cases h
  | cons frame outer ih =>
    have hframe := hcovered frame List.mem_cons_self
    rw [bareOwner] at h
    rw [List.map_cons, bareOwner] at h'
    split at h
    · rename_i hnone
      rcases houtermost with hempty | ⟨hfree, houter⟩
      · rw [bareOwner_nil hempty] at h
        cases h
      · rw [candidates_rebound_of_none hfree, hnone] at h'
        exact ih (fun further hfurther => hcovered further (List.mem_cons_of_mem _ hfurther))
          houter h h'
    · rename_i owner howner
      cases h
      have hmem := candidates_rebound hframe (howner ▸ List.mem_singleton.mpr rfl)
      split at h'
      · rename_i hnone
        rw [hnone] at hmem
        cases hmem
      · rename_i other hother
        cases h'
        rw [hother] at hmem
        exact (List.mem_singleton.mp hmem).symm
      · cases h'
    · cases h

end

end Interpretation
end EntityQuery

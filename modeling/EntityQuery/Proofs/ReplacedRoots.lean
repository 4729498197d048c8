import EntityQuery.Proofs.BoundElements
import EntityQuery.Proofs.BuiltStatements
import EntityQuery.Proofs.CopiedQueries
import EntityQuery.Proofs.MirroredQueries

/-!
# Roots over entities in place of polymorphic names

Only the outermost from clause has roots over polymorphic names. When such a root is made in one run
and a root over an entity in the other, the entity is chosen for the number of the root, and all
that was built before is what it was: nothing before mentions the new number.

* `Choice.choose`, `Choice.chooseAll`: one more entity is chosen.
* `Context.Outer`: the states between the spaces of the outermost from clause.
* `Step.root_together`: the two runs part at a polymorphic root.
-/

namespace EntityQuery

namespace Choice

/-- One more root gets an entity. -/
def choose (choice : Choice) (uid : Nat) (entity : Entity) : Choice :=
  fun other => if other = uid then some entity else choice other

/-- The roots of some numbers get entities, as long as there are any. -/
def chooseAll (choice : Choice) : List Nat → List Entity → Choice
  | uid :: uids, entity :: entities => (choice.choose uid entity).chooseAll uids entities
  | _, _ => choice

variable {choice : Choice} {uid other : Nat} {entity : Entity}

theorem choose_self : choice.choose uid entity uid = some entity := if_pos rfl

theorem chooseAll_nil (uids : List Nat) : choice.chooseAll uids [] = choice := by
  cases uids <;> rfl

theorem choose_of_ne (h : other ≠ uid) : choice.choose uid entity other = choice other := if_neg h

end Choice

namespace Interpretation

open Resolved (Join Space)

variable {schema : Schema} {choice other : Choice}

/-! ## States that mention the same elements -/

namespace OpenSpace

theorem rebound_congr {rules : Resolved.Rules} {scope : List FromElement} {space : OpenSpace}
    (h : space.Holds rules scope)
    (hsame : ∀ inner element, rules.element inner element →
      element.rebound choice = element.rebound other) :
    space.rebound choice = space.rebound other := by
  cases space with
  | vacant => rfl
  | rooted root joins =>
    have hspace : (Space.mk root joins).rebuilt true (FromElement.rebound choice)
        = (Space.mk root joins).rebuilt true (FromElement.rebound other) := by
      refine Space.rebuilt_congr fun bound hbound => ?_
      obtain ⟨inner, -, helement⟩ := Space.Holds.mentioned h bound hbound
      exact hsame inner bound helement
    rw [Space.rebuilt_mk, Space.rebuilt_mk] at hspace
    obtain ⟨hroot, hjoins⟩ := Space.mk.inj hspace
    rw [rebound, rebound, hroot, hjoins]

end OpenSpace

theorem Levels.rebound_congr {rules : Resolved.Rules} {levels : Levels} (h : levels.Fit rules)
    (hsame : ∀ inner element, rules.element inner element →
      element.rebound choice = element.rebound other) :
    levels.rebound choice = levels.rebound other := by
  induction levels with
  | nil => rfl
  | cons spaces below ih =>
    obtain ⟨hspaces, hbelow⟩ := h
    have hfirst : spaces.map (OpenSpace.rebound choice) = spaces.map (OpenSpace.rebound other) :=
      List.map_congr_left fun space hspace => OpenSpace.rebound_congr (hspaces space hspace) hsame
    change spaces.map _ :: rebound choice below = spaces.map _ :: rebound other below
    rw [hfirst, ih hbelow]

namespace Context

/-- A state between the spaces of the outermost from clause. -/
structure Outer (schema : Schema) (choice : Choice) (context : Context) : Prop where
  sound : context.Sound schema False
  fits : context.Fits choice
  trail : ∃ marks : List Mark, context.trail = marks ++ [.opened]
    ∧ ∀ mark ∈ marks, mark.isElement = true

variable {context before after : Context}

/-- In a state without result variables, only the choices for registered elements matter. -/
theorem rebound_congr (hsound : context.Sound schema False)
    (htrail : ∃ marks : List Mark, context.trail = marks ++ [.opened]
      ∧ ∀ mark ∈ marks, mark.isElement = true)
    (hsame : ∀ element ∈ context.registered, choice element.uid = other element.uid) :
    context.rebound choice = context.rebound other := by
  have hregistered : ∀ element ∈ context.registered,
      element.rebound choice = element.rebound other :=
    fun element helement => FromElement.rebound_congr fun part hpart =>
      hsame part (hsound.closed element helement hpart)
  have hmarks : context.trail.rebound choice = context.trail.rebound other := by
    refine List.map_congr_left fun mark hmark => ?_
    cases mark with
    | opened => rfl
    | element bound =>
      have hbound : bound ∈ context.trail.elements := List.mem_filterMap.mpr ⟨_, hmark, rfl⟩
      exact congrArg Mark.element (hregistered bound (hsound.bound bound hbound).1)
    | selection result =>
      obtain ⟨marks, heq, helements⟩ := htrail
      rw [heq] at hmark
      rcases List.mem_append.mp hmark with hmark | hmark
      · cases helements _ hmark
      · cases List.mem_singleton.mp hmark
  have hlevels : context.levels.rebound choice = context.levels.rebound other :=
    Levels.rebound_congr hsound.fit fun _ element ⟨helement, _⟩ => hregistered element helement
  have hall : context.registered.map (FromElement.rebound choice)
      = context.registered.map (FromElement.rebound other) := List.map_congr_left hregistered
  rw [rebound, rebound, hall, hmarks, hlevels]

/-- A choice for a number that was not drawn yet changes nothing. -/
theorem Outer.rebound_choose (h : context.Outer schema choice) {uid : Nat}
    (hle : context.nextUid ≤ uid) (entity : Entity) :
    context.rebound (choice.choose uid entity) = context.rebound choice := by
  refine rebound_congr h.sound h.trail fun element helement => Choice.choose_of_ne ?_
  have hlt := h.sound.fresh element helement
  omega

/-- No scope further out than that of the outermost query binds anything. -/
theorem outermost_of_trail {trail : Trail} (htrail : ∃ marks : List Mark,
    trail = marks ++ [.opened] ∧ ∀ mark ∈ marks, mark.isElement = true) :
    Outermost choice trail.frames := by
  obtain ⟨marks, rfl, hmarks⟩ := htrail
  have htail := Trail.frames_append [] fun mark hmark =>
    Mark.isOpened_of_isElement (hmarks mark hmark)
  cases hframes : Trail.frames (marks ++ [.opened]) with
  | nil => exact trivial
  | cons frame outer =>
    rw [hframes] at htail
    have houter : outer = [[]] := htail
    refine .inl fun further hfurther => ?_
    rw [houter] at hfurther
    exact List.mem_singleton.mp hfurther

/-- The states between the spaces follow each other. -/
theorem Outer.next (h : before.Outer schema choice) (hsound : after.Sound schema False)
    (hfollows : before.Follows other after) : after.Outer schema other where
  sound := hsound
  fits := hfollows.fits
  trail := by
    obtain ⟨marks, htrail, hmarks⟩ := h.trail
    obtain ⟨newer, hafter, hnewer⟩ := hfollows.elementMarks
    refine ⟨newer ++ marks, by rw [hafter, htrail, List.append_assoc], fun mark hmark => ?_⟩
    rcases List.mem_append.mp hmark with hmark | hmark
    · exact hnewer mark hmark
    · exact hmarks mark hmark

/-- The next number may be chosen for. -/
theorem Outer.drawn (h : before.Outer schema choice) (entity : Entity) (nextAlias : Nat) :
    Fits (choice.choose before.nextUid entity)
      { before with nextUid := before.nextUid + 1, nextAlias } := by
  have hcovered : ∀ element ∈ before.registered, element.Covered choice →
      element.Covered (choice.choose before.nextUid entity) := by
    intro element helement hold chosen hchosen
    have hlt := h.sound.fresh element helement
    rw [Choice.choose_of_ne (Nat.ne_of_lt hlt)] at hchosen
    exact hold chosen hchosen
  constructor
  case fresh =>
    intro uid chosen hchosen
    by_cases hnew : uid = before.nextUid
    · rw [hnew]
      exact Nat.lt_succ_self _
    · rw [Choice.choose_of_ne hnew] at hchosen
      exact Nat.lt_succ_of_lt (h.fits.fresh uid chosen hchosen)
  case registered =>
    exact fun element helement => hcovered element helement (h.fits.registered element helement)
  case bound =>
    intro element helement
    exact hcovered element (h.sound.bound element helement).1 (h.fits.bound element helement)
  case outermost => exact outermost_of_trail h.trail

end Context

/-! ## Roots -/

/-- What is drawn for an element does not depend on its type. -/
theorem Draws.eq_of_rebound {alias? : Option String} {type type' : TypeDescriptor}
    {binding binding' : Binding} {nextAlias nextAlias' : Nat} {before : Context}
    (h : Draws before alias? type binding nextAlias)
    (h' : Draws (before.rebound choice) alias? type' binding' nextAlias') :
    binding' = { binding with type := type' } ∧ nextAlias' = nextAlias := by
  obtain ⟨uid, aliasName, generated, bound⟩ := binding
  obtain ⟨uid', aliasName', generated', bound'⟩ := binding'
  obtain ⟨rfl, rfl, hdrawn⟩ := h
  obtain ⟨rfl, rfl, hdrawn'⟩ := h'
  rcases hdrawn with ⟨written, hwritten, rfl, rfl, rfl⟩ | ⟨hnone, rfl, rfl, rfl⟩
  · rcases hdrawn' with ⟨written', hwritten', rfl, rfl, rfl⟩ | ⟨hnone', -⟩
    · rw [hwritten] at hwritten'
      cases hwritten'
      exact ⟨rfl, rfl⟩
    · rw [hwritten] at hnone'
      cases hnone'
  · rcases hdrawn' with ⟨written', hwritten', -⟩ | ⟨-, rfl, rfl, rfl⟩
    · rw [hnone] at hwritten'
      cases hwritten'
    · exact ⟨rfl, rfl⟩

namespace Step

variable {before : Context}

/-- The two bindings differ in their types only. -/
theorem newBinding_together (houter : before.Outer schema choice) (alias? : Option String)
    (type : TypeDescriptor) (entity : Entity) :
    Together schema before (before.rebound choice) (newBinding alias? type)
      (newBinding alias? (.entity entity)) fun binding binding' after after' =>
        binding.uid = before.nextUid ∧ binding.type = type
          ∧ binding' = binding.rebound (choice.choose before.nextUid entity)
          ∧ after.Fits (choice.choose before.nextUid entity) ∧ after.trail = before.trail
          ∧ after' = after.rebound (choice.choose before.nextUid entity) := by
  rw [← houter.rebound_choose (Nat.le_refl _) entity]
  refine ends_newBinding fun binding nextAlias hdraws => ?_
  refine ends_newBinding fun binding' nextAlias' hdraws' => ?_
  obtain ⟨rfl, rfl⟩ := hdraws.eq_of_rebound hdraws'
  refine ⟨hdraws.uid, hdraws.type, ?_, houter.drawn entity _, rfl, rfl⟩
  rw [Binding.rebound, hdraws.uid, Choice.choose_self]
  rfl

/-- The root over a polymorphic name and that over an entity which implements the name. -/
theorem makeRoot_together (houter : before.Outer schema choice) (id : SpaceId)
    {polymorphic : Polymorphic} {entity : Entity} (hmem : entity ∈ polymorphic.implementors)
    (alias? : Option String) :
    Together schema before (before.rebound choice) (makeRoot id (.polymorphic polymorphic) alias?)
      (makeRoot id (.mapped entity) alias?) fun root _ after after' =>
        after' = after.rebound (choice.choose root.uid entity)
          ∧ before.Follows (choice.choose root.uid entity) after := by
  refine together_bind (newBinding_together houter alias? _ entity) ?_
  rintro binding _ between _ ⟨huid, htype, rfl, hfits, htrail, rfl⟩
  have hcovered : (FromElement.root binding).Covered (choice.choose before.nextUid entity) := by
    intro chosen hchosen
    have hroot : (FromElement.root binding).uid = before.nextUid := huid
    rw [hroot, Choice.choose_self] at hchosen
    cases hchosen
    exact ⟨polymorphic, htype, hmem⟩
  have houtermost : Outermost (choice.choose before.nextUid entity)
      (Trail.frames (.element (.root binding) :: between.trail)) := by
    obtain ⟨marks, htrail', hmarks⟩ := houter.trail
    refine Context.outermost_of_trail ⟨.element (.root binding) :: marks, ?_, fun mark hmark => ?_⟩
    · rw [htrail, htrail']
      rfl
    · rcases List.mem_cons.mp hmark with rfl | hmark
      · rfl
      · exact hmarks mark hmark
  refine together_mono (placeRoot_mirrors hfits id hcovered houtermost) ?_
  rintro root _ after _ ⟨⟨rfl, -⟩, rfl, hfollows⟩
  have hroot : (FromElement.root binding).uid = before.nextUid := huid
  rw [hroot]
  refine ⟨rfl, hfollows.fits, ?_⟩
  rw [← htrail]
  exact hfollows.elementMarks

/-- Naming an entity in place of a polymorphic name changes the type of the root only. -/
theorem root_together (houter : before.Outer schema choice) (id : SpaceId) {written : Phrase.Root}
    {name : DottedName} {polymorphic : Polymorphic} {entity : Entity}
    (hpolymorphic : schema.entity? written.entity.text = some (.polymorphic polymorphic))
    (hmem : entity ∈ polymorphic.implementors)
    (hentity : schema.entity? name.text = some (.mapped entity)) :
    Together schema before (before.rebound choice) (root id written)
      (root id { written with entity := name }) fun root _ after after' =>
        after' = after.rebound (choice.choose root.uid entity)
          ∧ before.Follows (choice.choose root.uid entity) after := by
  have hnames : Together schema before (before.rebound choice) (Step.entity written.entity)
      (Step.entity name) fun found found' after after' => found = .polymorphic polymorphic
        ∧ found' = .mapped entity ∧ before = after ∧ after' = before.rebound choice := by
    refine ends_entity fun found hfound => ends_entity fun found' hfound' => ?_
    rw [hpolymorphic] at hfound
    rw [hentity] at hfound'
    exact ⟨(Option.some.inj hfound).symm, (Option.some.inj hfound').symm, rfl, rfl⟩
  refine together_bind hnames ?_
  rintro _ _ _ _ ⟨rfl, rfl, rfl, rfl⟩
  -- The first run checks more before it goes on in the same state.
  refine ends_bind (ends_comply (Q := fun _ after => before = after) rfl) ?_
  rintro _ _ rfl
  split
  · exact ends_throw_bind _ _
  refine together_bind (Q := fun _ _ after after' =>
      before = after ∧ after' = before.rebound choice)
    (ends_checkVariable (ends_checkVariable ⟨rfl, rfl⟩)) ?_
  rintro _ _ _ _ ⟨rfl, rfl⟩
  exact makeRoot_together houter id hmem written.alias?

end Step

end Interpretation
end EntityQuery

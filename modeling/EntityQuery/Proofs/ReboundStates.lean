import EntityQuery.Proofs.OpenLevels
import EntityQuery.Proofs.Outcome
import EntityQuery.Proofs.ReboundElements
import EntityQuery.Proofs.RebuiltSpaces

/-!
# States with entities in place of polymorphic names

A state in which some roots get another type: everywhere they stand, in the registered elements, in
the scopes and in the open from clauses. Two runs of a step, one from a state and one from the state
with the chosen types, end in such states again as long as neither of them fails.

* `Context.rebound`: the state with the chosen types.
* `Context.Fits`: what makes choices harmless for look-ups; it is kept by every step.
* `Context.Continues`, `Context.Follows`: how a step changes a state that fits.
* `Step.Mirrors`: a step that does the same in both states.
-/

namespace EntityQuery.Interpretation

open Resolved (Join Space)

variable {choice : Choice}

/-! ## Open from clauses -/

/-- The open space with the chosen types. -/
def OpenSpace.rebound (choice : Choice) : OpenSpace → OpenSpace
  | vacant => vacant
  | rooted root joins =>
    rooted (root.rebound choice) (joins.map (Join.rebuilt true (FromElement.rebound choice)))

theorem OpenSpace.rebound_eq :
    OpenSpace.rebound choice = OpenSpace.rebuilt true (FromElement.rebound choice) := by
  funext space
  cases space <;> rfl

namespace OpenSpace

theorem root?_rebound (space : OpenSpace) :
    (space.rebound choice).root? = space.root?.map (FromElement.rebound choice) := by
  rw [rebound_eq, root?_rebuilt]

theorem contains_rebound (space : OpenSpace) (uid : Nat) :
    (space.rebound choice).contains uid = space.contains uid := by
  rw [rebound_eq]
  exact contains_rebuilt (fun _ => FromElement.uid_rebound) Function.injective_id space uid

theorem restrict_rebound (space : OpenSpace) (uid : Nat) (restriction : Resolved.Predicate) :
    (space.rebound choice).restrict uid (restriction.rebuilt true (FromElement.rebound choice))
      = (space.restrict uid restriction).rebound choice := by
  rw [rebound_eq]
  exact restrict_rebuilt (fun _ => FromElement.uid_rebound) Function.injective_id space uid
    restriction

end OpenSpace

namespace Levels

/-- The open from clauses with the chosen types. -/
def rebound (choice : Choice) (levels : Levels) : Levels :=
  levels.map (List.map (OpenSpace.rebound choice))

theorem length_rebound (levels : Levels) : (rebound choice levels).length = levels.length :=
  List.length_map _

theorem spaceOf?_rebound (levels : Levels) (uid : Nat) :
    spaceOf? (rebound choice levels) uid = spaceOf? levels uid := by
  induction levels with
  | nil => rfl
  | cons spaces below ih =>
    have hspaces : (spaces.map (OpenSpace.rebound choice)).findIdx?
          (fun space => space.contains uid)
        = spaces.findIdx? fun space => space.contains uid := by
      rw [List.findIdx?_map]
      refine congrArg (List.findIdx? · spaces) (funext fun space => ?_)
      exact OpenSpace.contains_rebound space uid
    have hcons : rebound choice (spaces :: below)
        = spaces.map (OpenSpace.rebound choice) :: rebound choice below := rfl
    rw [hcons, spaceOf?, spaceOf?, hspaces, ih, length_rebound]

theorem firstRoot?_rebound (levels : Levels) :
    firstRoot? (rebound choice levels) = (firstRoot? levels).map (FromElement.rebound choice) := by
  cases levels with
  | nil => rfl
  | cons spaces below =>
    cases spaces with
    | nil => rfl
    | cons space spaces => exact OpenSpace.root?_rebound space

theorem openSpace_rebound {levels opened opened' : Levels} {id id' : SpaceId}
    (h : levels.openSpace = .ok (id, opened))
    (h' : (rebound choice levels).openSpace = .ok (id', opened')) :
    id' = id ∧ opened' = rebound choice opened := by
  cases levels with
  | nil => cases h
  | cons spaces below =>
    cases h
    cases h'
    simp [rebound, OpenSpace.rebound]

theorem headD_rebound (levels : Levels) :
    (rebound choice levels).headD [] = (levels.headD []).map (OpenSpace.rebound choice) := by
  cases levels <;> rfl

/-- A change that is the same in both spaces is the same in both from clauses. -/
theorem update_rebound {levels changed changed' : Levels} {id : SpaceId}
    {change change' : OpenSpace → Except Fault OpenSpace}
    (hchange : ∀ space filled filled', change space = .ok filled →
      change' (space.rebound choice) = .ok filled' → filled' = filled.rebound choice)
    (h : levels.update change id = .ok changed)
    (h' : (rebound choice levels).update change' id = .ok changed') :
    changed' = rebound choice changed := by
  induction levels generalizing changed changed' with
  | nil => cases h
  | cons spaces below ih =>
    have hcons : rebound choice (spaces :: below)
        = spaces.map (OpenSpace.rebound choice) :: rebound choice below := rfl
    rw [hcons, update, length_rebound] at h'
    rw [update] at h
    split at h
    · rename_i hlevel
      rw [if_pos hlevel, List.getElem?_map] at h'
      cases hspace : spaces[id.index]? with
      | none =>
        rw [hspace] at h
        cases h
      | some space =>
        rw [hspace] at h h'
        simp only [Option.map_some] at h h'
        cases hfilled : change space with
        | error fault => simp [hfilled, Except.map] at h
        | ok filled =>
          cases hfilled' : change' (space.rebound choice) with
          | error fault => simp [hfilled', Except.map] at h'
          | ok filled' =>
            simp only [hfilled, Except.map, Except.ok.injEq] at h
            simp only [hfilled', Except.map, Except.ok.injEq] at h'
            subst h h'
            rw [hchange space filled filled' hfilled hfilled', ← List.map_set]
            rfl
    · rename_i hlevel
      rw [if_neg hlevel] at h'
      cases hbelow : update change below id with
      | error fault => simp [hbelow, Except.map] at h
      | ok deeper =>
        cases hbelow' : update change' (rebound choice below) id with
        | error fault => simp [hbelow', Except.map] at h'
        | ok deeper' =>
          simp only [hbelow, Except.map, Except.ok.injEq] at h
          simp only [hbelow', Except.map, Except.ok.injEq] at h'
          subst h h'
          rw [ih hbelow hbelow']
          rfl

theorem close_rebound {spaces : List OpenSpace} {closed closed' : List Space}
    (h : Levels.close spaces = .ok closed)
    (h' : Levels.close (spaces.map (OpenSpace.rebound choice)) = .ok closed') :
    closed' = closed.map (Space.rebuilt true (FromElement.rebound choice)) := by
  rw [OpenSpace.rebound_eq, close_rebuilt h] at h'
  exact (Except.ok.inj h').symm

end Levels

/-! ## States -/

namespace Context

/-- The state with the chosen types. -/
def rebound (choice : Choice) (context : Context) : Context :=
  { context with
    registered := context.registered.map (FromElement.rebound choice)
    trail := context.trail.rebound choice
    levels := context.levels.rebound choice }

theorem find?_rebound (context : Context) (uid : Nat) :
    (context.rebound choice).find? uid = (context.find? uid).map (FromElement.rebound choice) := by
  rw [find?, rebound, List.find?_map, find?]
  refine congrArg (Option.map _) (congrArg (List.find? · context.registered)
    (funext fun element => ?_))
  rw [Function.comp_apply, FromElement.uid_rebound]

theorem implicitJoin?_rebound (context : Context) (source : Nat) (declared : String) :
    (context.rebound choice).implicitJoin? source declared
      = (context.implicitJoin? source declared).map (FromElement.rebound choice) := by
  rw [implicitJoin?, implicitJoin?]
  change (context.implicitJoins.find? _).bind _ = _
  cases context.implicitJoins.find? fun known =>
    known.source == source && known.declared == declared with
  | none => rfl
  | some known => exact find?_rebound context known.join

theorem spaceOf?_rebound (context : Context) (element : FromElement) :
    (context.rebound choice).spaceOf? (element.rebound choice) = context.spaceOf? element := by
  rw [spaceOf?, FromElement.unwrapped_rebound, FromElement.uid_rebound]
  exact Levels.spaceOf?_rebound context.levels element.unwrapped.uid

theorem leaveLevel_rebound (context : Context) :
    (context.rebound choice).leaveLevel = context.leaveLevel.rebound choice := by
  have htrail : (context.trail.rebound choice).leave = context.trail.leave.rebound choice :=
    Trail.leave_rebound context.trail
  have hlevels : (context.levels.rebound choice).tail = Levels.rebound choice context.levels.tail :=
    List.map_tail.symm
  simp only [leaveLevel, popResolver, leaveScope, dropClause, rebound, htrail, hlevels]

/-- What makes the choices harmless: the roots that get another type were made before, they are
over the names that the chosen entities implement, and no scope further out binds anything. -/
structure Fits (choice : Choice) (context : Context) : Prop where
  fresh : ∀ uid entity, choice uid = some entity → uid < context.nextUid
  registered : ∀ element ∈ context.registered, element.Covered choice
  bound : ∀ element ∈ context.trail.elements, element.Covered choice
  outermost : Outermost choice context.trail.frames

/-- How a step on a level changes a state that fits. -/
structure Continues (choice : Choice) (before after : Context) : Prop where
  fits : after.Fits choice
  marks : ∃ marks : List Mark, after.trail = marks ++ before.trail
    ∧ ∀ mark ∈ marks, mark.isOpened = false

/-- How a step that selects nothing changes a state that fits. -/
structure Follows (choice : Choice) (before after : Context) : Prop where
  fits : after.Fits choice
  elementMarks : ∃ marks : List Mark, after.trail = marks ++ before.trail
    ∧ ∀ mark ∈ marks, mark.isElement = true

variable {before between after : Context} {element : FromElement}

namespace Fits

/-- A new number is that of no root with a chosen type. -/
theorem none_of_le (h : before.Fits choice) {uid : Nat} (hle : before.nextUid ≤ uid) :
    choice uid = none := by
  cases hchoice : choice uid with
  | none => rfl
  | some entity => exact absurd (h.fresh uid entity hchoice) (Nat.not_lt.mpr hle)

/-- Only the numbers, the registered elements and the scopes matter. -/
theorem idle (h : before.Fits choice) (huids : before.nextUid ≤ after.nextUid)
    (hregistered : after.registered = before.registered) (htrail : after.trail = before.trail) :
    after.Fits choice where
  fresh := fun uid entity hentity => Nat.lt_of_lt_of_le (h.fresh uid entity hentity) huids
  registered := by
    rw [hregistered]
    exact h.registered
  bound := by
    rw [htrail]
    exact h.bound
  outermost := by
    rw [htrail]
    exact h.outermost

theorem register (h : before.Fits choice) (hcovered : element.Covered choice) :
    (before.register element).Fits choice where
  fresh := h.fresh
  registered := by
    intro other hother
    rcases List.mem_cons.mp hother with rfl | hother
    · exact hcovered
    · exact h.registered other hother
  bound := h.bound
  outermost := h.outermost

/-- An element that keeps its type may be bound in any scope. -/
theorem outermost_bind (h : before.Fits choice) (hfree : choice element.uid = none) :
    Outermost choice (Trail.frames (.element element :: before.trail)) := by
  have houtermost := h.outermost
  rw [Trail.frames_element]
  cases hframes : before.trail.frames with
  | nil => exact absurd hframes (Trail.frames_ne_nil _)
  | cons frame outer =>
    rw [hframes] at houtermost
    rcases houtermost with hempty | ⟨hframe, houter⟩
    · exact .inl hempty
    · refine .inr ⟨fun other hother => ?_, houter⟩
      rcases List.mem_append.mp hother with hother | hother
      · exact hframe other hother
      · rw [List.mem_singleton.mp hother]
        exact hfree

theorem bind (h : before.Fits choice) (hcovered : element.Covered choice)
    (houtermost : Outermost choice (Trail.frames (.element element :: before.trail))) :
    Fits choice { before with trail := .element element :: before.trail } where
  fresh := h.fresh
  registered := h.registered
  bound := by
    intro other hother
    rcases List.mem_cons.mp hother with rfl | hother
    · exact hcovered
    · exact h.bound other hother
  outermost := houtermost

theorem select (h : before.Fits choice) (result : ResultVariable) :
    Fits choice { before with trail := .selection result :: before.trail } :=
  ⟨h.fresh, h.registered, h.bound, h.outermost⟩

theorem openLevel (h : before.Fits choice) : before.openLevel.Fits choice where
  fresh := h.fresh
  registered := h.registered
  bound := h.bound
  outermost := .inr ⟨fun _ hnone => (List.not_mem_nil hnone).elim, h.outermost⟩

end Fits

namespace Continues

theorem trans (h : before.Continues choice between) (h' : between.Continues choice after) :
    before.Continues choice after where
  fits := h'.fits
  marks := by
    obtain ⟨marks, htrail, hmarks⟩ := h.marks
    obtain ⟨newer, htrail', hnewer⟩ := h'.marks
    refine ⟨newer ++ marks, by rw [htrail', htrail, List.append_assoc], fun mark hmark => ?_⟩
    rcases List.mem_append.mp hmark with hmark | hmark
    · exact hnewer mark hmark
    · exact hmarks mark hmark

end Continues

namespace Follows

theorem continues (h : before.Follows choice after) : before.Continues choice after where
  fits := h.fits
  marks := by
    obtain ⟨marks, htrail, hmarks⟩ := h.elementMarks
    exact ⟨marks, htrail, fun mark hmark => Mark.isOpened_of_isElement (hmarks mark hmark)⟩

/-- A state with the same scopes. -/
theorem idle (h : after.Fits choice) (htrail : after.trail = before.trail) :
    before.Follows choice after :=
  ⟨h, [], htrail, fun _ hnone => by cases hnone⟩

theorem refl (h : before.Fits choice) : before.Follows choice before := idle h rfl

theorem trans (h : before.Follows choice between) (h' : between.Follows choice after) :
    before.Follows choice after where
  fits := h'.fits
  elementMarks := by
    obtain ⟨marks, htrail, hmarks⟩ := h.elementMarks
    obtain ⟨newer, htrail', hnewer⟩ := h'.elementMarks
    refine ⟨newer ++ marks, by rw [htrail', htrail, List.append_assoc], fun mark hmark => ?_⟩
    rcases List.mem_append.mp hmark with hmark | hmark
    · exact hnewer mark hmark
    · exact hmarks mark hmark

/-- Such a step leaves the result variables. -/
theorem results (h : before.Follows choice after) : after.trail.results = before.trail.results := by
  obtain ⟨marks, htrail, hmarks⟩ := h.elementMarks
  rw [htrail, Trail.results_append _ hmarks]

end Follows

/-- A level is left with the scopes with which it was opened. -/
theorem Continues.leaveLevel (h : before.openLevel.Continues choice after)
    (hbefore : before.Fits choice) :
    before.Follows choice after.leaveLevel := by
  have htrail : after.leaveLevel.trail = before.trail := by
    obtain ⟨marks, htrail, hmarks⟩ := h.marks
    change after.trail.leave = before.trail
    rw [htrail]
    exact Trail.leave_append before.trail hmarks
  refine .idle ⟨h.fits.fresh, h.fits.registered, ?_, ?_⟩ htrail
  · rw [htrail]
    exact hbefore.bound
  · rw [htrail]
    exact hbefore.outermost

end Context

/-! ## Steps -/

namespace Step

variable {schema : Schema} {before between : Context} {α β γ δ ε ζ : Type}

/-- What is built from a tree is that tree built anew. -/
def Becomes {α : Type} (rebuild : α → α) (value value' : α) : Prop := value' = rebuild value

/-- What is found for an element is the element with the chosen types, which fits them. -/
def Meets (choice : Choice) (element element' : FromElement) : Prop :=
  element' = element.rebound choice ∧ element.Covered choice

/-- Two steps, from a state and from the state with the chosen types, have related values and leave
such states again. -/
def Mirrors {α β : Type} (R : α → β → Prop) (schema : Schema) (choice : Choice)
    (before : Context) (step : Step α) (step' : Step β) : Prop :=
  Together schema before (before.rebound choice) step step' fun value value' after after' =>
    R value value' ∧ after' = after.rebound choice ∧ before.Follows choice after

variable {R : α → β → Prop} {S : γ → δ → Prop}

theorem mirrors_pure (hfits : before.Fits choice) {value : α} {value' : β}
    (h : R value value') :
    Mirrors R schema choice before (pure value) (pure value') :=
  together_pure ⟨h, rfl, .refl hfits⟩

/-- What the first step changed may be used for the second one. -/
theorem mirrors_follow {first : Step α} {first' : Step β} {second : α → Step γ}
    {second' : β → Step δ} (hfirst : Mirrors R schema choice before first first')
    (hsecond : ∀ value value' between, R value value' → before.Follows choice between →
      Mirrors S schema choice between (second value) (second' value')) :
    Mirrors S schema choice before (first >>= second) (first' >>= second') := by
  refine together_bind hfirst ?_
  rintro value value' between _ ⟨hvalue, rfl, hfollows⟩
  refine together_mono (hsecond value value' between hvalue hfollows) ?_
  rintro result result' after after' ⟨hresult, hafter, hlater⟩
  exact ⟨hresult, hafter, hfollows.trans hlater⟩

theorem mirrors_bind {first : Step α} {first' : Step β} {second : α → Step γ}
    {second' : β → Step δ} (hfirst : Mirrors R schema choice before first first')
    (hsecond : ∀ value value' between, R value value' → between.Fits choice →
      Mirrors S schema choice between (second value) (second' value')) :
    Mirrors S schema choice before (first >>= second) (first' >>= second') :=
  mirrors_follow hfirst fun value value' between hvalue hfollows =>
    hsecond value value' between hvalue hfollows.fits

/-- A step that leaves the numbers, the registered elements and the scopes. -/
theorem mirrors_modify (hfits : before.Fits choice) {change : Context → Context}
    (hchange : change (before.rebound choice) = (change before).rebound choice)
    (huids : before.nextUid ≤ (change before).nextUid)
    (hregistered : (change before).registered = before.registered)
    (htrail : (change before).trail = before.trail) :
    Mirrors (fun _ _ => True) schema choice before (modify change) (modify change) :=
  together_modify ⟨trivial, hchange, .idle (hfits.idle huids hregistered htrail) htrail⟩

theorem mirrors_comply (hfits : before.Fits choice) {violated violated' : Bool}
    {breach breach' : Breach} :
    Mirrors (fun _ _ => True) schema choice before (comply violated breach)
      (comply violated' breach') :=
  together_comply ⟨trivial, rfl, .refl hfits⟩

theorem mirrors_ofExcept (hfits : before.Fits choice) {check : Except Fault α}
    {check' : Except Fault β}
    (h : ∀ value value', check = .ok value → check' = .ok value' → R value value') :
    Mirrors R schema choice before (ofExcept check) (ofExcept check') :=
  together_ofExcept fun value value' hvalue hvalue' =>
    ⟨h value value' hvalue hvalue', rfl, .refl hfits⟩

theorem mirrors_under (hfits : before.Fits choice) {resolver : Resolver} {step : Step α}
    {step' : Step β}
    (h : ∀ context, context.Fits choice → Mirrors R schema choice context step step') :
    Mirrors R schema choice before (under resolver step) (under resolver step') := by
  have hpush : (before.pushResolver resolver).Fits choice :=
    hfits.idle (Nat.le_refl _) rfl rfl
  refine together_under (together_mono (h _ hpush) ?_)
  rintro value value' after _ ⟨hvalue, rfl, hfollows⟩
  refine ⟨hvalue, rfl, ⟨hfollows.fits.idle (Nat.le_refl _) rfl rfl, hfollows.elementMarks⟩⟩

/-! ## Trees put together -/

variable {first : Step α} {second : Step β} {third : Step γ} {rebuildFirst : α → α}
  {rebuildSecond : β → β} {rebuildThird : γ → γ} {rebuild : δ → δ}

/-- A tree over one part. -/
theorem one_mirrors {combine combine' : α → δ}
    (hfirst : Mirrors (Becomes rebuildFirst) schema choice before first first)
    (hrebuild : ∀ one, combine' (rebuildFirst one) = rebuild (combine one)) :
    Mirrors (Becomes rebuild) schema choice before
      (do
        let one ← first
        return combine one)
      (do
        let one ← first
        return combine' one) := by
  refine mirrors_bind hfirst ?_
  rintro one _ between rfl hfits
  exact mirrors_pure hfits (hrebuild one)

/-- A tree over two parts, the first of which is built before the second. -/
theorem two_mirror {combine combine' : α → β → δ}
    (hfirst : Mirrors (Becomes rebuildFirst) schema choice before first first)
    (hsecond : ∀ {between : Context}, between.Fits choice →
      Mirrors (Becomes rebuildSecond) schema choice between second second)
    (hrebuild : ∀ one two,
      combine' (rebuildFirst one) (rebuildSecond two) = rebuild (combine one two)) :
    Mirrors (Becomes rebuild) schema choice before
      (do
        let one ← first
        let two ← second
        return combine one two)
      (do
        let one ← first
        let two ← second
        return combine' one two) := by
  refine mirrors_bind hfirst ?_
  rintro one _ between rfl hfits
  exact one_mirrors (hsecond hfits) (hrebuild one)

/-- A tree over three parts. -/
theorem three_mirror {combine combine' : α → β → γ → δ}
    (hfirst : Mirrors (Becomes rebuildFirst) schema choice before first first)
    (hsecond : ∀ {between : Context}, between.Fits choice →
      Mirrors (Becomes rebuildSecond) schema choice between second second)
    (hthird : ∀ {between : Context}, between.Fits choice →
      Mirrors (Becomes rebuildThird) schema choice between third third)
    (hrebuild : ∀ one two three,
      combine' (rebuildFirst one) (rebuildSecond two) (rebuildThird three)
      = rebuild (combine one two three)) :
    Mirrors (Becomes rebuild) schema choice before
      (do
        let one ← first
        let two ← second
        let three ← third
        return combine one two three)
      (do
        let one ← first
        let two ← second
        let three ← third
        return combine' one two three) := by
  refine mirrors_bind hfirst ?_
  rintro one _ between rfl hfits
  exact two_mirror (hsecond hfits) hthird (hrebuild one)

end Step

end EntityQuery.Interpretation

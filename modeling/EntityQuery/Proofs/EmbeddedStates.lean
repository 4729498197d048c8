import EntityQuery.Proofs.RebuiltSpaces
import EntityQuery.Proofs.RebuiltTwice
import EntityQuery.Proofs.RenamedScopes
import EntityQuery.Proofs.RestoredLevels
import EntityQuery.Proofs.SoundContext
import Mathlib.Data.List.DropRight
import Mathlib.Data.List.TakeWhile
import Mathlib.Logic.Function.Basic

/-!
# States of an embedded query

A query that is interpreted within another one draws its numbers and its made-up variables after
those that were drawn around it. Its elements are the ones that it has on its own, under greater
numbers and other made-up variables. The state is made of the state that surrounds the query and of
the state that the query has when it is interpreted on its own. What the query looks up by numbers,
by its own variables or in its own scopes, it finds in its own part.

* `PlainName`: a name that looks like no made-up variable.
* `Context.embeddedName`: what becomes of a name; `Context.embeddedName_injective`.
* `FromElement.embedded`: what becomes of an element.
* `Context.embedded`: the state on its own within another one.
* `Context.Numbered`: the state around holds no number that it did not draw.
* `Trail.element?_embedded`, `Trail.bind_embedded`, `bareOwner_embedded`, …: scopes.
* `Levels.update_embedded`, `Levels.spaceOf?_embedded`: from clauses.
* `Context.implicitJoin?_embedded`, `Context.leaveLevel_embedded`, …: states.
-/

namespace EntityQuery

open Interpretation

/-! ## Names -/

/-- The name does not begin, up to its first point, with a made-up variable. -/
def PlainName (name : String) : Prop := ∀ number, leadingPart name ≠ Context.generatedAlias number

theorem leadingPart_pointless (text : String) : '.' ∉ (leadingPart text).toList := by
  intro hpoint
  rw [leadingPart, String.toList_ofList] at hpoint
  simpa using List.mem_takeWhile_imp hpoint

theorem text_parts (text : String) :
    leadingPart text ++ String.ofList (text.toList.dropWhile (· != '.')) = text := by
  apply String.toList_injective
  rw [leadingPart, String.toList_append, String.toList_ofList, String.toList_ofList,
    List.takeWhile_append_dropWhile]

/-- A name with another part without points in front of its first point. -/
theorem leadingPart_renamedText {rename : String → String} {text : String}
    (h : '.' ∉ (rename (leadingPart text)).toList) :
    leadingPart (renamedText rename text) = rename (leadingPart text)
      ∧ (renamedText rename text).toList.dropWhile (· != '.')
        = text.toList.dropWhile (· != '.') := by
  have hplain := ne_point_of_plain h
  have hlist : (renamedText rename text).toList
      = (rename (leadingPart text)).toList ++ text.toList.dropWhile (· != '.') := by
    rw [renamedText, String.toList_append, String.toList_ofList]
  have hnone : (text.toList.dropWhile (· != '.')).takeWhile (· != '.') = [] :=
    List.takeWhile_eq_nil_iff.mpr (List.dropWhile_get_zero_not _ _)
  rw [leadingPart, hlist, List.takeWhile_append_of_pos hplain, hnone,
    List.dropWhile_append_of_pos hplain, List.dropWhile_idempotent, List.append_nil,
    String.ofList_toList]
  exact ⟨rfl, rfl⟩

/-- A renaming that keeps parts without points apart keeps all texts apart. -/
theorem renamedText_injective {rename : String → String} (hrename : Function.Injective rename)
    (hplain : ∀ name, '.' ∉ name.toList → '.' ∉ (rename name).toList) :
    Function.Injective (renamedText rename) := by
  intro text other heq
  have htext := leadingPart_renamedText (hplain _ (leadingPart_pointless text))
  have hother := leadingPart_renamedText (hplain _ (leadingPart_pointless other))
  have hfront : leadingPart text = leadingPart other :=
    hrename (by rw [← htext.1, heq, hother.1])
  have hrest : text.toList.dropWhile (· != '.') = other.toList.dropWhile (· != '.') := by
    rw [← htext.2, heq, hother.2]
  rw [← text_parts text, ← text_parts other, hfront, hrest]

namespace Interpretation.Context

variable (around : Context)

/-- Made-up variables after those that were drawn around; other names are left. -/
noncomputable def laterAlias : String → String :=
  Function.extend generatedAlias (fun number => generatedAlias (around.nextAlias + number)) id

theorem laterAlias_generated (number : Nat) :
    around.laterAlias (generatedAlias number) = generatedAlias (around.nextAlias + number) := by
  have hinjective : Function.Injective generatedAlias := fun _ _ => generatedAlias_injective
  exact hinjective.extend_apply _ _ number

theorem laterAlias_other {name : String} (h : ∀ number, name ≠ generatedAlias number) :
    around.laterAlias name = name :=
  Function.extend_apply' _ _ _ fun ⟨number, heq⟩ => h number heq.symm

theorem laterAlias_cases (name : String) :
    (∃ number, name = generatedAlias number
        ∧ around.laterAlias name = generatedAlias (around.nextAlias + number))
      ∨ (∀ number, name ≠ generatedAlias number) ∧ around.laterAlias name = name := by
  by_cases h : ∃ number, name = generatedAlias number
  · obtain ⟨number, rfl⟩ := h
    exact .inl ⟨number, rfl, around.laterAlias_generated number⟩
  · have hother : ∀ number, name ≠ generatedAlias number := not_exists.mp h
    exact .inr ⟨hother, around.laterAlias_other hother⟩

theorem laterAlias_injective : Function.Injective around.laterAlias := by
  intro name other heq
  rcases around.laterAlias_cases name with ⟨number, rfl, hname⟩ | ⟨hplain, hname⟩ <;>
    rcases around.laterAlias_cases other with ⟨number', rfl, hother⟩ | ⟨hplain', hother⟩ <;>
    rw [hname, hother] at heq
  · rw [Nat.add_left_cancel (generatedAlias_injective heq)]
  · exact absurd heq.symm (hplain' _)
  · exact absurd heq (hplain _)
  · exact heq

theorem laterAlias_pointless (name : String) (h : '.' ∉ name.toList) :
    '.' ∉ (around.laterAlias name).toList := by
  rcases around.laterAlias_cases name with ⟨number, -, hname⟩ | ⟨-, hname⟩
  · rw [hname]
    exact generatedAlias_pointless _
  · rw [hname]
    exact h

/-- A name, or the text of a path, with a later made-up variable at its beginning. -/
noncomputable def embeddedName : String → String := renamedText around.laterAlias

theorem embeddedName_injective : Function.Injective around.embeddedName :=
  renamedText_injective around.laterAlias_injective around.laterAlias_pointless

theorem embeddedName_generated (number : Nat) :
    around.embeddedName (generatedAlias number) = generatedAlias (around.nextAlias + number) := by
  rw [embeddedName, renamedText_plain (generatedAlias_pointless number), laterAlias_generated]

theorem embeddedName_plain {name : String} (h : PlainName name) :
    around.embeddedName name = name := by
  rw [embeddedName, renamedText, laterAlias_other around h]
  exact text_parts name

theorem embeddedName_point (text rest : String) :
    around.embeddedName (text ++ "." ++ rest) = around.embeddedName text ++ "." ++ rest :=
  renamedText_point _ text rest

theorem beq_embeddedName (name other : String) :
    (around.embeddedName name == around.embeddedName other) = (name == other) := by
  rw [Bool.eq_iff_iff, beq_iff_eq, beq_iff_eq]
  exact around.embeddedName_injective.eq_iff

end Interpretation.Context

/-! ## Elements -/

/-- The binding under a later number and, if it is a made-up one, a later variable. -/
noncomputable def Binding.embedded (around : Context) (binding : Binding) : Binding :=
  { binding with
    uid := around.nextUid + binding.uid
    aliasName := around.embeddedName binding.aliasName }

namespace FromElement

variable (around : Context)

/-- The element under later numbers and variables, on the whole way to it. -/
noncomputable def embedded : FromElement → FromElement
  | root binding => root (binding.embedded around)
  | crossJoin binding => crossJoin (binding.embedded around)
  | entityJoin binding joinType => entityJoin (binding.embedded around) joinType
  | attributeJoin binding source join =>
    attributeJoin (binding.embedded around) (source.embedded)
      { join with path := around.embeddedName join.path }
  | treated binding wrapped => treated (binding.embedded around) wrapped.embedded

variable {around} {element : FromElement}

theorem binding_embedded :
    (element.embedded around).binding = element.binding.embedded around := by
  cases element <;> rfl

@[simp] theorem uid_embedded : (element.embedded around).uid = around.nextUid + element.uid := by
  cases element <;> rfl

@[simp] theorem aliasName_embedded :
    (element.embedded around).aliasName = around.embeddedName element.aliasName := by
  cases element <;> rfl

@[simp] theorem type_embedded : (element.embedded around).type = element.type := by
  cases element <;> rfl

@[simp] theorem isPolymorphic_embedded :
    (element.embedded around).isPolymorphic = element.isPolymorphic := by
  rw [isPolymorphic, type_embedded, isPolymorphic]

@[simp] theorem isImplicit_embedded :
    (element.embedded around).isImplicit = element.isImplicit := by
  cases element <;> rfl

@[simp] theorem collection?_embedded :
    (element.embedded around).collection? = element.collection? := by
  cases element <;> rfl

theorem unwrapped_embedded :
    (element.embedded around).unwrapped = element.unwrapped.embedded around := by
  induction element with
  | treated binding wrapped ih => exact ih
  | _ => rfl

end FromElement

/-! ## Parts of a state -/

section

variable (around : Context)

/-- The mark of an element of an embedded query. -/
def Narrowing.embedded (mark : Narrowing) : Narrowing :=
  ⟨around.nextUid + mark.uid, mark.target⟩

namespace Interpretation

noncomputable def ResultVariable.embedded (result : ResultVariable) : ResultVariable :=
  { result with expression := result.expression.rebuilt false (FromElement.embedded around) }

noncomputable def Mark.embedded : Mark → Mark
  | opened => opened
  | element bound => element (bound.embedded around)
  | selection result => selection (result.embedded around)

/-- What is bound on its own is bound after what is bound around. -/
noncomputable def Trail.embedded (trail : Trail) : Trail :=
  trail.map (Mark.embedded around) ++ around.trail

/-- A space stands as many levels deeper as there are around. -/
def SpaceId.embedded (id : SpaceId) : SpaceId := ⟨around.levels.length + id.level, id.index⟩

def Resolver.embedded : Resolver → Resolver
  | joinRestriction space => joinRestriction (space.embedded around)
  | resolver => resolver

def KnownJoin.embedded (known : KnownJoin) : KnownJoin :=
  ⟨around.nextUid + known.source, known.declared, around.nextUid + known.join⟩

noncomputable def OpenSpace.embedded : OpenSpace → OpenSpace :=
  OpenSpace.rebuilt false (FromElement.embedded around)

noncomputable def Levels.embedded (levels : Levels) : Levels :=
  levels.map (List.map (OpenSpace.embedded around)) ++ around.levels

end Interpretation

end

namespace Interpretation

/-- The state on its own within the state around. Advisories may name variables, so that others take
their place. -/
noncomputable def Context.embedded (context around : Context)
    (advisories : List Report.Advisory) : Context where
  nextUid := around.nextUid + context.nextUid
  nextAlias := around.nextAlias + context.nextAlias
  registered := context.registered.map (FromElement.embedded around) ++ around.registered
  implicitJoins := context.implicitJoins.map (KnownJoin.embedded around) ++ around.implicitJoins
  narrowings := around.narrowings ++ context.narrowings.map (Narrowing.embedded around)
  trail := context.trail.embedded around
  resolvers := context.resolvers.map (Resolver.embedded around) ++ around.resolvers
  levels := context.levels.embedded around
  style? := context.style?.or around.style?
  advisories := advisories

/-- The state holds no number that it did not draw. -/
structure Context.Numbered (around : Context) : Prop where
  registered : ∀ element ∈ around.registered, element.uid < around.nextUid
  known : ∀ known ∈ around.implicitJoins, known.source < around.nextUid
  marked : ∀ mark ∈ around.narrowings, mark.uid < around.nextUid
  placed : ∀ spaces ∈ around.levels, ∀ space ∈ spaces, ∀ element ∈ space.elements,
    element.uid < around.nextUid

variable {around : Context}

/-! ## Scopes -/

/-- Everything that is bound is bound in a scope that was opened. -/
def Trail.Entered (trail : Trail) : Prop := ∃ marks, trail = marks ++ [.opened]

namespace Trail

variable {trail after : Trail} {name : String}

theorem isOpened_embedded (mark : Mark) : (mark.embedded around).isOpened = mark.isOpened := by
  cases mark <;> rfl

theorem elements_embedded (marks : List Mark) :
    (marks.map (Mark.embedded around)).filterMap Mark.element?
      = (marks.filterMap Mark.element?).map (FromElement.embedded around) := by
  rw [List.filterMap_map, List.map_filterMap]
  refine List.filterMap_congr fun mark _ => ?_
  cases mark <;> rfl

theorem selections_embedded (marks : List Mark) :
    (marks.map (Mark.embedded around)).filterMap Mark.selection?
      = (marks.filterMap Mark.selection?).map (ResultVariable.embedded around) := by
  rw [List.filterMap_map, List.map_filterMap]
  refine List.filterMap_congr fun mark _ => ?_
  cases mark <;> rfl

theorem find?_embedded (name : String) (marks : List Mark) :
    find? (around.embeddedName name) (marks.map (Mark.embedded around))
      = (find? name marks).map (FromElement.embedded around) := by
  rw [find?, elements_embedded]
  refine find?_map_of_forall fun element _ => ?_
  rw [FromElement.aliasName_embedded, around.beq_embeddedName]

/-- A plain name that stands for nothing around stands for what it does in the query alone. -/
theorem element?_embedded (hname : PlainName name) (hfree : around.trail.element? name = none)
    (trail : Trail) :
    (trail.embedded around).element? name
      = (trail.element? name).map (FromElement.embedded around) := by
  have hown : find? (around.embeddedName name) _ = _ := find?_embedded name trail
  rw [around.embeddedName_plain hname] at hown
  rw [element?, find?] at hfree
  rw [find?] at hown
  rw [element?, find?, embedded, List.filterMap_append, List.find?_append, hown, hfree,
    Option.or_none]
  rfl

/-- The current scope ends where it was opened. -/
theorem current_opened (marks rest : List Mark) :
    current (marks ++ .opened :: rest) = current marks := by
  induction marks with
  | nil => rfl
  | cons mark marks ih =>
    simp only [current, List.cons_append, List.takeWhile_cons] at ih ⊢
    rw [ih]

theorem current_embedded (h : trail.Entered) :
    current (trail.embedded around) = (current trail).map (Mark.embedded around) := by
  obtain ⟨marks, rfl⟩ := h
  have hopened : (fun mark : Mark => !mark.isOpened) ∘ Mark.embedded around
      = fun mark => !mark.isOpened :=
    funext fun mark => congrArg not (isOpened_embedded mark)
  have hmarks : embedded around (marks ++ [.opened])
      = marks.map (Mark.embedded around) ++ .opened :: around.trail := by
    rw [embedded, List.map_append, List.append_assoc]
    rfl
  rw [hmarks, current_opened, current_opened, current, List.takeWhile_map, hopened]
  rfl

theorem selection?_embedded (h : trail.Entered) (name : String) :
    (trail.embedded around).selection? name
      = (trail.selection? name).map (ResultVariable.embedded around) := by
  rw [selection?, current_embedded h, selections_embedded]
  exact find?_map_of_forall fun _ _ => rfl

/-- What is bound in a scope of the query is bound there when the query is embedded. -/
theorem bind_embedded (h : trail.Entered) {element : FromElement}
    (hbind : trail.bind element = .ok after) :
    (trail.embedded around).bind (element.embedded around) = .ok (after.embedded around) := by
  rw [bind] at hbind
  rw [bind, current_embedded h, FromElement.aliasName_embedded, find?_embedded]
  cases hfound : find? element.aliasName (current trail) with
  | some existing =>
    rw [hfound] at hbind
    cases hbind
  | none =>
    rw [hfound] at hbind
    cases hbind
    rfl

theorem bindSelection_named (trail : Trail) (position : Nat) (expression : Resolved.Expression)
    (aliasName : String) :
    trail.bindSelection position (.mk expression (some aliasName))
      = if (trail.selection? aliasName).isSome then .error (.duplicateSelection aliasName)
        else match find? aliasName (current trail) with
          | none => .ok (.selection ⟨aliasName, position, expression⟩ :: trail)
          | some element =>
            if expression.type? = some element.type then
              .ok (.selection ⟨aliasName, position, expression⟩ :: trail)
            else .error (.selectionCollision aliasName expression.type? element) := rfl

theorem bindSelection_embedded (h : trail.Entered) {position : Nat}
    {selection : Resolved.Selection}
    (hname : ∀ aliasName ∈ selection.alias?, PlainName aliasName)
    (hbind : trail.bindSelection position selection = .ok after) :
    (trail.embedded around).bindSelection position
        (selection.rebuilt false (FromElement.embedded around))
      = .ok (after.embedded around) := by
  obtain ⟨expression, alias?⟩ := selection
  have hselection : (Resolved.Selection.mk expression alias?).rebuilt false
      (FromElement.embedded around)
    = .mk (expression.rebuilt false (FromElement.embedded around)) alias? := rfl
  rw [hselection]
  cases alias? with
  | none =>
    cases hbind
    rfl
  | some aliasName =>
    have hplain : around.embeddedName aliasName = aliasName :=
      around.embeddedName_plain (hname aliasName rfl)
    have hfind : find? (around.embeddedName aliasName) _ = _ :=
      find?_embedded aliasName (current trail)
    rw [hplain] at hfind
    rw [bindSelection_named] at hbind ⊢
    rw [selection?_embedded h, Option.isSome_map, current_embedded h, hfind,
      Resolved.Expression.type?_rebuilt fun _ => FromElement.type_embedded]
    by_cases hbound : (trail.selection? aliasName).isSome = true
    · rw [if_pos hbound] at hbind
      cases hbind
    rw [if_neg hbound] at hbind ⊢
    cases hfound : find? aliasName (current trail) with
    | none =>
      rw [hfound] at hbind
      cases hbind
      rfl
    | some element =>
      rw [hfound] at hbind
      dsimp only [Option.map_some] at hbind ⊢
      rw [FromElement.type_embedded]
      by_cases hsame : expression.type? = some element.type
      · rw [if_pos hsame] at hbind ⊢
        cases hbind
        rfl
      · rw [if_neg hsame] at hbind
        cases hbind

variable (around) in
/-- The scopes of the query come before those around it. -/
theorem frames_opened (marks : List Mark) :
    ∃ frames, (∀ rest, Trail.frames (marks ++ .opened :: rest) = frames ++ Trail.frames rest)
      ∧ ∀ rest, Trail.frames (marks.map (Mark.embedded around) ++ .opened :: rest)
        = frames.map (List.map (FromElement.embedded around)) ++ Trail.frames rest := by
  suffices h : ∃ frame outer,
      (∀ rest, Trail.frames (marks ++ .opened :: rest) = frame :: outer ++ Trail.frames rest)
        ∧ ∀ rest, Trail.frames (marks.map (Mark.embedded around) ++ .opened :: rest)
          = (frame :: outer).map (List.map (FromElement.embedded around)) ++ Trail.frames rest by
    obtain ⟨frame, outer, h⟩ := h
    exact ⟨frame :: outer, h⟩
  induction marks with
  | nil => exact ⟨[], [], fun _ => rfl, fun _ => rfl⟩
  | cons mark marks ih =>
    obtain ⟨frame, outer, hframes, hembedded⟩ := ih
    cases mark with
    | opened =>
      exact ⟨[], frame :: outer, fun rest => congrArg ([] :: ·) (hframes rest),
        fun rest => congrArg ([] :: ·) (hembedded rest)⟩
    | selection result => exact ⟨frame, outer, hframes, hembedded⟩
    | element bound =>
      refine ⟨frame ++ [bound], outer, fun rest => ?_, fun rest => ?_⟩
      · rw [List.cons_append, frames_element, hframes]
        rfl
      · rw [List.map_cons, List.cons_append]
        change Trail.frames (.element (bound.embedded around) :: _) = _
        rw [frames_element, hembedded]
        simp

end Trail

/-! ## Bare attributes -/

theorem candidates_embedded (name : String) (frame : List FromElement) :
    candidates name (frame.map (FromElement.embedded around))
      = (candidates name frame).map (FromElement.embedded around) := by
  rw [candidates, candidates, List.filter_map]
  refine congrArg (List.map _) (List.filter_congr fun element _ => ?_)
  rw [Function.comp_apply, FromElement.isImplicit_embedded, FromElement.type_embedded]

/-- The owner that a bare attribute has in the query alone comes first when it is embedded. -/
theorem bareOwner_embedded {trail : Trail} (h : trail.Entered) {name : String}
    {element : FromElement} (howner : bareOwner name trail.frames = .ok (some element)) :
    bareOwner name (trail.embedded around).frames = .ok (some (element.embedded around)) := by
  obtain ⟨marks, rfl⟩ := h
  obtain ⟨frames, hframes, hembedded⟩ := Trail.frames_opened around marks
  have hmarks : Trail.embedded around (marks ++ [.opened])
      = marks.map (Mark.embedded around) ++ .opened :: around.trail := by
    rw [Trail.embedded, List.map_append, List.append_assoc]
    rfl
  rw [hframes] at howner
  rw [hmarks, hembedded]
  clear hframes hembedded hmarks
  induction frames with
  | nil => cases howner
  | cons frame outer ih =>
    rw [List.cons_append, bareOwner] at howner
    rw [List.map_cons, List.cons_append, bareOwner, candidates_embedded]
    cases hcandidates : candidates name frame with
    | nil =>
      rw [hcandidates] at howner
      exact ih howner
    | cons owner others =>
      rw [hcandidates] at howner
      cases others with
      | nil =>
        cases howner
        rfl
      | cons other more => cases howner

/-! ## Open from clauses -/

namespace Levels

variable {levels after : Levels} {id : SpaceId}

theorem embedded_cons (spaces : List OpenSpace) (below : Levels) :
    embedded around (spaces :: below)
      = spaces.map (OpenSpace.embedded around) :: embedded around below := rfl

theorem length_embedded (levels : Levels) :
    (levels.embedded around).length = around.levels.length + levels.length := by
  rw [embedded, List.length_append, List.length_map, Nat.add_comm]

theorem headD_embedded (h : levels ≠ []) :
    (levels.embedded around).headD [] = (levels.headD []).map (OpenSpace.embedded around) := by
  cases levels with
  | nil => exact absurd rfl h
  | cons spaces below => rfl

theorem tail_embedded (h : levels ≠ []) :
    (levels.embedded around).tail = embedded around levels.tail := by
  cases levels with
  | nil => exact absurd rfl h
  | cons spaces below => rfl

theorem openSpace_embedded (h : levels.openSpace = .ok (id, after)) :
    (levels.embedded around).openSpace = .ok (id.embedded around, after.embedded around) := by
  cases levels with
  | nil => cases h
  | cons spaces below =>
    cases h
    rw [embedded_cons, openSpace, length_embedded, List.length_map, embedded_cons, List.map_append]
    rfl

theorem firstRoot?_embedded {root : FromElement} (h : levels.firstRoot? = some root) :
    (levels.embedded around).firstRoot? = some (root.embedded around) := by
  cases levels with
  | nil => cases h
  | cons spaces below =>
    cases spaces with
    | nil => cases h
    | cons space spaces =>
      have hroot : space.root? = some root := h
      change (space.embedded around).root? = _
      rw [OpenSpace.embedded, OpenSpace.root?_rebuilt, hroot]
      rfl

/-- A change of a space of the query is one of that space where the query is embedded. -/
theorem update_embedded {change change' : OpenSpace → Except Fault OpenSpace}
    (hchange : ∀ space filled, change space = .ok filled →
      change' (space.embedded around) = .ok (filled.embedded around))
    (h : levels.update change id = .ok after) :
    (levels.embedded around).update change' (id.embedded around) = .ok (after.embedded around) := by
  induction levels generalizing after with
  | nil => cases h
  | cons spaces below ih =>
    have hlevel : (embedded around below).length = (id.embedded around).level
        ↔ below.length = id.level := by
      rw [length_embedded]
      exact Nat.add_left_cancel_iff
    rw [update] at h
    rw [embedded_cons, update]
    by_cases hhere : below.length = id.level
    · rw [if_pos hhere] at h
      rw [if_pos (hlevel.mpr hhere)]
      have hindex : (id.embedded around).index = id.index := rfl
      rw [hindex, List.getElem?_map]
      cases hspace : spaces[id.index]? with
      | none =>
        rw [hspace] at h
        cases h
      | some space =>
        rw [hspace] at h
        dsimp only at h
        cases hfilled : change space with
        | error fault =>
          rw [hfilled] at h
          cases h
        | ok filled =>
          rw [hfilled] at h
          cases h
          simp only [Option.map_some, hchange space filled hfilled, Except.map, ← List.map_set]
          rfl
    · rw [if_neg hhere] at h
      rw [if_neg (mt hlevel.mp hhere)]
      cases hrest : update change below id with
      | error fault =>
        rw [hrest] at h
        cases h
      | ok deeper =>
        rw [hrest] at h
        cases h
        rw [ih hrest]
        rfl

theorem contains_embedded (space : OpenSpace) (uid : Nat) :
    (space.embedded around).contains (around.nextUid + uid) = space.contains uid :=
  OpenSpace.contains_rebuilt (fun _ => FromElement.uid_embedded)
    (fun _ _ => Nat.add_left_cancel) space uid

/-- No space around holds an element of the query. -/
theorem spaceOf?_around (h : around.Numbered) (uid : Nat) :
    spaceOf? around.levels (around.nextUid + uid) = none := by
  have hplaced := h.placed
  generalize around.levels = levels at hplaced
  induction levels with
  | nil => rfl
  | cons spaces below ih =>
    obtain ⟨hspaces, hbelow⟩ := List.forall_mem_cons.mp hplaced
    have hnone : (spaces.findIdx? fun space => space.contains (around.nextUid + uid)) = none := by
      refine List.findIdx?_eq_none_iff.mpr fun space hspace => ?_
      refine List.any_eq_false.mpr fun element helement heq => ?_
      have huid : element.uid = around.nextUid + uid := beq_iff_eq.mp heq
      have hlt : element.uid < around.nextUid := hspaces space hspace element helement
      omega
    rw [spaceOf?, hnone]
    exact ih hbelow

theorem spaceOf?_embedded (h : around.Numbered) (levels : Levels) (uid : Nat) :
    spaceOf? (levels.embedded around) (around.nextUid + uid)
      = (spaceOf? levels uid).map (SpaceId.embedded around) := by
  induction levels with
  | nil => exact spaceOf?_around h uid
  | cons spaces below ih =>
    have hspaces : ((spaces.map (OpenSpace.embedded around)).findIdx? fun space =>
          space.contains (around.nextUid + uid))
        = spaces.findIdx? fun space => space.contains uid := by
      rw [List.findIdx?_map]
      exact congrArg (List.findIdx? · spaces) (funext fun space => contains_embedded space uid)
    rw [embedded_cons, spaceOf?, hspaces, spaceOf?, ih, length_embedded]
    cases spaces.findIdx? fun space => space.contains uid <;> rfl

end Levels

/-! ## States -/

namespace Context

variable {context : Context} {advisories : List Report.Advisory}

theorem find?_embedded (h : around.Numbered) (context : Context) (uid : Nat) :
    (context.embedded around advisories).find? (around.nextUid + uid)
      = (context.find? uid).map (FromElement.embedded around) := by
  have haround : (around.registered.find? fun element => element.uid == around.nextUid + uid)
      = none := by
    refine List.find?_eq_none.mpr fun element helement heq => ?_
    have huid : element.uid = around.nextUid + uid := beq_iff_eq.mp heq
    have hlt : element.uid < around.nextUid := h.registered element helement
    omega
  have hown : ((context.registered.map (FromElement.embedded around)).find? fun element =>
        element.uid == around.nextUid + uid)
      = (context.find? uid).map (FromElement.embedded around) := by
    refine find?_map_of_forall fun element _ => ?_
    rw [FromElement.uid_embedded, Bool.eq_iff_iff, beq_iff_eq, beq_iff_eq, Nat.add_left_cancel_iff]
  change (_ ++ around.registered).find? _ = _
  rw [List.find?_append, hown, haround, Option.or_none]

/-- An implicit join of the query is found again, and none around it is taken for one. -/
theorem implicitJoin?_embedded (h : around.Numbered) (context : Context) (source : Nat)
    (declared : String) :
    (context.embedded around advisories).implicitJoin? (around.nextUid + source) declared
      = (context.implicitJoin? source declared).map (FromElement.embedded around) := by
  have haround : (around.implicitJoins.find? fun known =>
      known.source == around.nextUid + source && known.declared == declared) = none := by
    refine List.find?_eq_none.mpr fun known hknown heq => ?_
    have hsource : known.source = around.nextUid + source :=
      beq_iff_eq.mp (Bool.and_eq_true_iff.mp heq).1
    have hlt : known.source < around.nextUid := h.known known hknown
    omega
  have hown : ((context.implicitJoins.map (KnownJoin.embedded around)).find? fun known =>
        known.source == around.nextUid + source && known.declared == declared)
      = (context.implicitJoins.find? fun known =>
        known.source == source && known.declared == declared).map (KnownJoin.embedded around) := by
    refine find?_map_of_forall fun known _ => congrArg (· && known.declared == declared) ?_
    rw [Bool.eq_iff_iff, beq_iff_eq, beq_iff_eq]
    exact Nat.add_left_cancel_iff
  rw [implicitJoin?, implicitJoin?]
  change ((_ ++ around.implicitJoins).find? _).bind _ = _
  rw [List.find?_append, hown, haround, Option.or_none]
  cases context.implicitJoins.find? fun known =>
    known.source == source && known.declared == declared with
  | none => rfl
  | some known => exact find?_embedded h context known.join

theorem spaceOf?_embedded (h : around.Numbered) (context : Context) (element : FromElement) :
    (context.embedded around advisories).spaceOf? (element.embedded around)
      = (context.spaceOf? element).map (SpaceId.embedded around) := by
  rw [spaceOf?, FromElement.unwrapped_embedded, FromElement.uid_embedded]
  exact Levels.spaceOf?_embedded h context.levels element.unwrapped.uid

/-- An element of the query has the marks that it has there alone. -/
theorem narrowings_embedded (h : around.Numbered) (context : Context) (uid : Nat) :
    (context.embedded around advisories).narrowings.of (around.nextUid + uid)
      = context.narrowings.of uid := by
  have haround : Narrowings.of around.narrowings (around.nextUid + uid) = [] := by
    refine List.filterMap_eq_nil_iff.mpr fun mark hmark => if_neg fun heq => ?_
    have hlt : mark.uid < around.nextUid := h.marked mark hmark
    omega
  have hown : Narrowings.of (context.narrowings.map (Narrowing.embedded around))
      (around.nextUid + uid) = context.narrowings.of uid := by
    rw [Narrowings.of, List.filterMap_map, Narrowings.of]
    refine List.filterMap_congr fun mark _ => ?_
    exact if_congr Nat.add_left_cancel_iff rfl rfl
  rw [embedded, Narrowings.of_append, haround, hown, List.nil_append]

theorem narrow_embedded (h : around.Numbered) (context : Context) (uid : Nat)
    (target : EntityReference) :
    (context.embedded around advisories).narrow (around.nextUid + uid) target
      = (context.narrow uid target).embedded around advisories := by
  have hmarks : (context.embedded around advisories).narrowings.add (around.nextUid + uid) target
      = around.narrowings ++ (context.narrowings.add uid target).map
        (Narrowing.embedded around) := by
    rw [Narrowings.add, narrowings_embedded h, Narrowings.add]
    split
    · rfl
    · rw [List.map_append, ← List.append_assoc]
      rfl
  exact congrArg
    (fun marks => { context.embedded around advisories with narrowings := marks }) hmarks

/-- Within a level, what a path may refer to is decided by the query. -/
theorem resolver_embedded (h : context.resolvers ≠ []) :
    (context.embedded around advisories).resolver = context.resolver.embedded around := by
  rw [resolver, resolver]
  change (_ ++ around.resolvers).headD _ = _
  cases hresolvers : context.resolvers with
  | nil => exact absurd hresolvers h
  | cons resolver resolvers => rfl

/-- A level of the query is left as it is alone. -/
theorem leaveLevel_embedded {kept : Levels → Levels → Prop} {before after : Context}
    (h : before.openLevel.Proceeds kept after) (hlevels : after.levels ≠ []) :
    (after.embedded around advisories).leaveLevel
      = after.leaveLevel.embedded around advisories := by
  obtain ⟨marks, htrail, hmarks⟩ := h.trail
  have hopened : after.trail = marks ++ .opened :: before.trail := htrail
  have hembedded : after.trail.embedded around
      = marks.map (Mark.embedded around) ++ .opened :: before.trail.embedded around := by
    rw [hopened, Trail.embedded, List.map_append, List.append_assoc]
    rfl
  have hleave : (after.trail.embedded around).leave = after.trail.leave.embedded around := by
    rw [hembedded, hopened, Trail.leave_append _ hmarks, Trail.leave_append]
    exact List.forall_mem_map.mpr fun mark hmark =>
      (Trail.isOpened_embedded mark).trans (hmarks mark hmark)
  have hresolvers : (after.resolvers.map (Resolver.embedded around) ++ around.resolvers).tail
      = after.resolvers.tail.map (Resolver.embedded around) ++ around.resolvers := by
    rw [h.resolvers]
    rfl
  have htail : (after.levels.embedded around).tail = _ := Levels.tail_embedded hlevels
  simp only [leaveLevel, popResolver, leaveScope, dropClause, embedded, hleave, hresolvers, htail]

end Context
end Interpretation
end EntityQuery

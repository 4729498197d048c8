import EntityQuery.Proofs.MovedQueries
import EntityQuery.Proofs.MovedStatements
import EntityQuery.Proofs.Renders

/-!
# Spaces that joins are added to

Following paths leaves every open space with its root and its joins, in their order and with their
restrictions, and adds implicit joins without restrictions at the end. A step that makes a written
join does two things: it may follow a path, draw a binding and note a narrowing, and then it puts
the join behind all others, into the space that was opened last, and binds its variable.

* `Step.Attaches`: a written join is attached after other changes.
* `Step.crossJoin_attaches`, `Step.explicitJoin_attaches`, `Step.joinTarget_attaches`: the steps that
  make written joins.
* `OpenSpace.Spreads`, `Levels.Spreads`: what paths do to open spaces.
* `spreadMotion`: all steps but those of a from clause do no more.
* `Levels.Grows`: the space that was opened last gets joins, and paths do the rest.
* `Step.joinTarget_writes`, `Step.restrict_grows`: a written join and its restriction.
-/

/-! ## Written joins that are attached -/

namespace EntityQuery.Interpretation.Step

open Resolved (IsWrittenJoin)

/-- A written join is attached to a space in a state that the relation leads to. -/
def Attaches (R : Context → Context → Prop) (schema : Schema) (id : SpaceId) (before : Context)
    (element : FromElement) (after : Context) : Prop :=
  IsWrittenJoin element
    ∧ ∃ between, R before between ∧ (attach id element).run' schema between = (.ok (), after)

section

variable {schema : Schema} {treat : DottedName → Prop} {outer inner : Context → Context → Prop}
  (motion : Motion schema treat outer inner) {before : Context} {id : SpaceId}
include motion

theorem Attaches.after {between after : Context} {element : FromElement}
    (h : Attaches outer schema id between element after) (hbefore : outer before between) :
    Attaches outer schema id before element after := by
  obtain ⟨hwritten, last, hlast, hrun⟩ := h
  exact ⟨hwritten, last, motion.trans _ _ _ hbefore hlast, hrun⟩

theorem attach_attaches {element : FromElement} (helement : IsWrittenJoin element) :
    Ends schema before (do
      attach id element
      return element) fun element after => Attaches outer schema id before element after :=
  ends_bind (Q := fun _ after => (attach id element).run' schema before = (.ok (), after))
    (fun _ _ hrun => hrun) fun _ _ hrun => ends_pure ⟨helement, before, motion.refl before, hrun⟩

/-- A join over an entity is attached under a binding that is drawn for it. -/
theorem entityElement_attaches (alias? : Option String) (type : TypeDescriptor)
    (make : Binding → FromElement) (hmake : ∀ binding, IsWrittenJoin (make binding)) :
    Ends schema before (do
      let element := make (← newBinding alias? type)
      attach id element
      return element) fun element after => Attaches outer schema id before element after := by
  have hdraw : Moves schema True outer before (newBinding alias? type) :=
    newBinding_moves motion alias? type
  refine ends_bind hdraw.ends fun binding between hbetween => ?_
  exact ends_mono (attach_attaches motion (hmake binding)) fun _ _ h => h.after motion hbetween

theorem crossJoin_attaches (entity : EntityReference) (alias? : Option String) :
    Ends schema before (crossJoin id entity alias?) fun element after =>
      Attaches outer schema id before element after := by
  refine ends_bind (ends_ensureMapped (Q := fun _ after => before = after) rfl) ?_
  rintro _ _ rfl
  exact entityElement_attaches motion alias? entity.type .crossJoin fun _ => trivial

theorem entityJoin_attaches (alias? : Option String) (entity : EntityReference)
    (joinType : JoinType) :
    Ends schema before (entityJoin id alias? entity joinType) fun element after =>
      Attaches outer schema id before element after := by
  refine ends_bind (ends_ensureMapped (Q := fun _ after => before = after) rfl) ?_
  rintro _ _ rfl
  exact entityElement_attaches motion alias? entity.type
    (fun binding => .entityJoin binding joinType) fun _ => trivial

/-- A new join that is not implicit; what it is narrowed to is noted first. -/
theorem newAttributeJoin_attaches {request : JoinRequest} (himplicit : request.implicit = false)
    (declared : Attribute) :
    Ends schema before (newAttributeJoin request declared) fun element after =>
      Attaches outer schema request.space before element after := by
  rw [newAttributeJoin_eq]
  refine ends_bind (ends_attributeType (Q := fun _ after => before = after) fun _ _ => rfl) ?_
  rintro type _ rfl
  dsimp only
  split
  · exact ends_throw_bind _ _
  have hdraw : Moves schema True outer before
      (newBinding request.alias? (joinedType request.narrowed? type)) :=
    newBinding_moves motion _ _
  refine ends_bind hdraw.ends fun binding drawn hdrawn => ?_
  have hwritten : IsWrittenJoin (requested request declared type binding) := himplicit
  refine ends_modify_bind (ends_mono (attach_attaches motion hwritten) fun _ _ h =>
    h.after motion (motion.trans _ _ _ hdrawn (motion.idle drawn _ _ _ _ _ _)))

theorem attributeJoin_attaches {request : JoinRequest} (himplicit : request.implicit = false) :
    Ends schema before (attributeJoin request) fun element after =>
      Attaches outer schema request.space before element after := by
  have hstays : Stays schema True before (joinableAttribute request) :=
    joinableAttribute_stays request
  refine ends_bind hstays.ends ?_
  rintro declared _ rfl
  rw [if_neg (by simp [himplicit])]
  exact newAttributeJoin_attaches motion himplicit declared

/-- The path to the source of a join may make implicit joins before. -/
theorem explicitJoin_attaches (path : DottedName) (alias? : Option String)
    (narrowed? : Option EntityReference) (joinType : JoinType) (fetched : Bool) :
    Ends schema before (explicitJoin id path alias? narrowed? joinType fetched)
      fun element after => Attaches outer schema id before element after := by
  unfold explicitJoin
  split
  · exact ends_throw _
  dsimp only
  split
  · exact ends_throw_bind _ _
  have hparts : Moves schema True outer before (fromElementParts path.parts.dropLast path) :=
    fromElementParts_moves motion _ _
  refine ends_bind hparts.ends fun source between hbetween => ?_
  exact ends_mono (attributeJoin_attaches motion rfl) fun _ _ h => h.after motion hbetween

theorem joinTarget_attaches (target : Phrase.JoinTarget) (alias? : Option String)
    (joinType : JoinType) (fetched : Bool) :
    Ends schema before (joinTarget id target alias? joinType fetched)
      fun element after => Attaches outer schema id before element after := by
  unfold joinTarget
  split
  · refine ends_get_bind ?_
    split
    · refine ends_bind (ends_entity (Q := fun _ after => before = after) fun _ _ => rfl) ?_
      rintro entity _ rfl
      exact entityJoin_attaches motion alias? entity joinType
    · exact explicitJoin_attaches motion _ _ _ _ _
  · refine ends_bind (ends_treatTarget (Q := fun _ after => before = after) fun _ _ => rfl) ?_
    rintro entity _ rfl
    exact explicitJoin_attaches motion _ _ _ _ _

end

end EntityQuery.Interpretation.Step

/-! ## Spaces with more joins -/

namespace EntityQuery.Interpretation

open Resolved (Join)

/-- The joins are implicit ones without restrictions. -/
def Unwritten (joins : List Join) : Prop :=
  ∀ join ∈ joins, join.isExplicit = false ∧ join.restriction = none

theorem Unwritten.append {joins more : List Join} (h : Unwritten joins) (h' : Unwritten more) :
    Unwritten (joins ++ more) := by
  intro join hjoin
  rcases List.mem_append.mp hjoin with hjoin | hjoin
  · exact h join hjoin
  · exact h' join hjoin

theorem Unwritten.filter_isExplicit {joins : List Join} (h : Unwritten joins) :
    joins.filter Join.isExplicit = [] :=
  List.filter_eq_nil_iff.mpr fun join hjoin => by simp [(h join hjoin).1]

/-- The space got implicit joins at its end and nothing else. -/
def OpenSpace.Spreads : OpenSpace → OpenSpace → Prop
  | .vacant, after => after = .vacant
  | .rooted root joins, after => ∃ more, after = .rooted root (joins ++ more) ∧ Unwritten more

namespace OpenSpace.Spreads

theorem refl (space : OpenSpace) : space.Spreads space := by
  cases space with
  | vacant => rfl
  | rooted root joins => exact ⟨[], by simp, fun _ h => by cases h⟩

theorem trans {space between after : OpenSpace} (h : space.Spreads between)
    (h' : between.Spreads after) : space.Spreads after := by
  cases space with
  | vacant =>
    have hbetween : between = .vacant := h
    subst hbetween
    exact h'
  | rooted root joins =>
    obtain ⟨more, rfl, hmore⟩ := h
    obtain ⟨most, rfl, hmost⟩ := h'
    exact ⟨more ++ most, by rw [List.append_assoc], hmore.append hmost⟩

end OpenSpace.Spreads

/-- Every space of a from clause got implicit joins at its end and nothing else. -/
abbrev ClauseSpreads (spaces more : List OpenSpace) : Prop :=
  List.Forall₂ OpenSpace.Spreads spaces more

theorem clauseSpreads_refl (spaces : List OpenSpace) : ClauseSpreads spaces spaces :=
  List.forall₂_same.mpr fun space _ => .refl space

theorem ClauseSpreads.trans {spaces more most : List OpenSpace} (h : ClauseSpreads spaces more)
    (h' : ClauseSpreads more most) : ClauseSpreads spaces most :=
  forall₂_trans h h' OpenSpace.Spreads.trans

/-- A from clause in two parts is still one in two parts. -/
theorem ClauseSpreads.of_append {front back more : List OpenSpace}
    (h : ClauseSpreads (front ++ back) more) :
    ∃ front' back', more = front' ++ back' ∧ ClauseSpreads front front'
      ∧ ClauseSpreads back back' := by
  induction front generalizing more with
  | nil => exact ⟨[], more, rfl, .nil, h⟩
  | cons first front ih =>
    obtain ⟨first', rest, hfirst, hrest, rfl⟩ := List.forall₂_cons_left_iff.mp h
    obtain ⟨front', back', rfl, hfront, hback⟩ := ih hrest
    exact ⟨first' :: front', back', rfl, .cons hfirst hfront, hback⟩

/-- What stands at the end of a from clause stands there afterwards. -/
theorem ClauseSpreads.snoc {spaces more : List OpenSpace} {last : OpenSpace}
    (h : ClauseSpreads (spaces ++ [last]) more) :
    ∃ spaces' last', more = spaces' ++ [last'] ∧ ClauseSpreads spaces spaces'
      ∧ last.Spreads last' := by
  obtain ⟨spaces', back', rfl, hspaces, hback⟩ := h.of_append
  obtain ⟨last', rest, hlast, hrest, rfl⟩ := List.forall₂_cons_left_iff.mp hback
  cases hrest
  exact ⟨spaces', last', rfl, hspaces, hlast⟩

namespace Levels

/-- Every open space got implicit joins at its end and nothing else. -/
def Spreads (levels more : Levels) : Prop := List.Forall₂ ClauseSpreads levels more

theorem Spreads.refl (levels : Levels) : levels.Spreads levels :=
  List.forall₂_same.mpr fun spaces _ => clauseSpreads_refl spaces

theorem Spreads.trans {levels more most : Levels} (h : levels.Spreads more)
    (h' : more.Spreads most) : levels.Spreads most :=
  forall₂_trans h h' ClauseSpreads.trans

theorem Spreads.tail {levels more : Levels} (h : levels.Spreads more) :
    Spreads levels.tail more.tail := by
  cases h with
  | nil => exact .nil
  | cons _ hrest => exact hrest

theorem Spreads.fill {place : Place} {space filled : OpenSpace} (h : space.Spreads filled) :
    (place.fill space).Spreads (place.fill filled) := by
  refine List.rel_append (Spreads.refl _) (.cons ?_ (Spreads.refl _))
  exact List.rel_append (clauseSpreads_refl _) (.cons h (clauseSpreads_refl _))

end Levels

/-! ## Steps off the from clause -/

/-- Across a step, open spaces get implicit joins only. -/
def SpreadsAcross (before after : Context) : Prop := before.levels.Spreads after.levels

/-- Across the steps of the innermost from clause, the same holds of the other ones. -/
def SpreadsBelow (before after : Context) : Prop :=
  after.levels.length = before.levels.length ∧ Levels.Spreads before.levels.tail after.levels.tail

theorem spreadMotion (schema : Schema) (treat : DottedName → Prop) :
    Motion schema treat SpreadsAcross SpreadsBelow where
  refl _ := .refl _
  trans _ _ _ h h' := Levels.Spreads.trans h h'
  within _ _ h := ⟨(List.Forall₂.length_eq h).symm, Levels.Spreads.tail h⟩
  transWithin _ _ _ h h' := ⟨h'.1.trans h.1, h.2.trans h'.2⟩
  depth _ _ h := h.1
  idle _ _ _ _ _ _ _ := .refl _
  register _ _ _ := .refl _
  bind _ _ _ _ _ := .refl _
  joinImplicitly context place root joins binding source join himplicit _ hopened _ := by
    change Levels.Spreads context.levels _
    rw [hopened]
    refine Levels.Spreads.fill ⟨[.mk (.attributeJoin binding source join) none], rfl, ?_⟩
    intro added hadded
    rw [List.mem_singleton.mp hadded]
    refine ⟨?_, rfl⟩
    change (!join.implicit) = false
    rw [himplicit]
    rfl
  resolve _ _ _ h := h
  nest _ _ h := h.2
  openSpace context id levels hopen := by
    change levels.length = context.levels.length ∧ Levels.Spreads context.levels.tail levels.tail
    cases hlevels : context.levels with
    | nil =>
      rw [hlevels] at hopen
      cases hopen
    | cons spaces below =>
      rw [hlevels] at hopen
      cases hopen
      exact ⟨rfl, .refl _⟩
  declare _ _ _ _ := ⟨rfl, .refl _⟩
  fill context place space filled hopened habove := by
    refine ⟨fill_length _ hopened, ?_⟩
    change Levels.Spreads context.levels.tail (place.fill filled).tail
    rw [hopened]
    simp only [Place.fill, habove, List.nil_append, List.tail_cons]
    exact .refl _
  select _ _ := ⟨rfl, .refl _⟩

/-! ## The space that was opened last -/

namespace Levels

/-- The place is that of the last space of the innermost from clause, which has a root. -/
def Last (id : SpaceId) (levels : Levels) : Prop :=
  ∃ opened root joins below, levels = (opened ++ [.rooted root joins]) :: below
    ∧ id = ⟨below.length, opened.length⟩

/-- The space that was opened last got joins at its end; every other one got implicit joins only. -/
def Grows (levels : Levels) (more : List Join) (after : Levels) : Prop :=
  ∃ opened opened' root joins below below',
    levels = (opened ++ [.rooted root joins]) :: below
      ∧ after = (opened' ++ [.rooted root (joins ++ more)]) :: below'
      ∧ ClauseSpreads opened opened' ∧ Spreads below below'

/-- The space that was opened last got a written join, among joins that paths made. -/
def Gains (levels : Levels) (written : Join) (after : Levels) : Prop :=
  ∃ front rest, levels.Grows (front ++ written :: rest) after ∧ Unwritten front ∧ Unwritten rest
    ∧ written.isExplicit = true

theorem Last.level {id : SpaceId} {levels : Levels} (h : levels.Last id) :
    id.level + 1 = levels.length := by
  obtain ⟨opened, root, joins, below, rfl, rfl⟩ := h
  rfl

theorem Last.ne_nil {id : SpaceId} {levels : Levels} (h : levels.Last id) : levels ≠ [] := by
  obtain ⟨opened, root, joins, below, rfl, -⟩ := h
  exact List.cons_ne_nil _ _

theorem Grows.last {levels after : Levels} {more : List Join} (h : levels.Grows more after)
    {id : SpaceId} (hlast : levels.Last id) : after.Last id := by
  obtain ⟨opened, opened', root, joins, below, below', rfl, rfl, hopened, hbelow⟩ := h
  obtain ⟨spaces, other, others, rest, hlevels, rfl⟩ := hlast
  obtain ⟨hspaces, rfl⟩ := List.cons.inj hlevels
  obtain ⟨rfl, -⟩ := List.append_inj' hspaces rfl
  refine ⟨opened', root, joins ++ more, below', rfl, ?_⟩
  rw [← List.Forall₂.length_eq hopened, ← List.Forall₂.length_eq hbelow]

theorem Grows.trans {levels between after : Levels} {more most : List Join}
    (h : levels.Grows more between) (h' : between.Grows most after) :
    levels.Grows (more ++ most) after := by
  obtain ⟨opened, opened', root, joins, below, below', rfl, rfl, hopened, hbelow⟩ := h
  obtain ⟨spaces, spaces', other, others, rest, rest', hlevels, rfl, hspaces, hrest⟩ := h'
  obtain ⟨hclause, rfl⟩ := List.cons.inj hlevels
  obtain ⟨rfl, hspace⟩ := List.append_inj' hclause rfl
  cases hspace
  exact ⟨opened, spaces', root, joins, below, rest', rfl, by rw [List.append_assoc],
    hopened.trans hspaces, hbelow.trans hrest⟩

theorem grows_nil {id : SpaceId} {levels : Levels} (h : levels.Last id) :
    levels.Grows [] levels := by
  obtain ⟨opened, root, joins, below, rfl, rfl⟩ := h
  exact ⟨opened, opened, root, joins, below, below, rfl, by simp, clauseSpreads_refl _, .refl _⟩

/-- What paths do adds implicit joins to the space that was opened last. -/
theorem Spreads.grows {levels after : Levels} (h : levels.Spreads after) {id : SpaceId}
    (hlast : levels.Last id) : ∃ more, levels.Grows more after ∧ Unwritten more := by
  obtain ⟨opened, root, joins, below, rfl, rfl⟩ := hlast
  cases h with
  | cons hclause hbelow =>
    obtain ⟨opened', last, rfl, hopened, more, rfl, hmore⟩ := ClauseSpreads.snoc hclause
    exact ⟨more, ⟨opened, opened', root, joins, below, _, rfl, rfl, hopened, hbelow⟩, hmore⟩

/-- A change of the space that was opened last. -/
theorem Last.fill {id : SpaceId} {levels : Levels} (h : levels.Last id) {place : Place}
    {space : OpenSpace} (hopened : levels = place.fill space) (hid : place.id = id) :
    place.above = [] ∧ place.right = [] ∧ ∃ root joins, space = .rooted root joins := by
  obtain ⟨opened, root, joins, below, rfl, rfl⟩ := h
  have hfill : (⟨[], opened, [], below⟩ : Place).fill (.rooted root joins) = place.fill space := by
    rw [← hopened]
    rfl
  obtain ⟨rfl, rfl⟩ := Place.fill_inj hfill hid.symm
  exact ⟨rfl, rfl, root, joins, rfl⟩

/-- A join is put at the end of the space that was opened last. -/
theorem Last.addJoin {id : SpaceId} {levels : Levels} (h : levels.Last id) {place : Place}
    {space filled : OpenSpace} {element : FromElement} (hopened : levels = place.fill space)
    (hid : place.id = id) (hadd : space.addJoin element = .ok filled) :
    levels.Grows [.mk element none] (place.fill filled) := by
  obtain ⟨habove, hright, root, joins, rfl⟩ := h.fill hopened hid
  cases hadd
  refine ⟨place.left, place.left, root, joins, place.below, place.below, ?_, ?_,
    clauseSpreads_refl _, .refl _⟩
  · simp [hopened, Place.fill, Place.clause, habove, hright]
  · simp [Place.fill, Place.clause, habove, hright]

end Levels

/-! ## Spaces that are filled one after the other -/

/-- A finished space that is still open. -/
def OpenSpace.ofSpace (space : Resolved.Space) : OpenSpace := .rooted space.root space.joins

/-- A finished space got implicit joins at its end and nothing else. -/
def SpaceSpreads (space after : Resolved.Space) : Prop :=
  ∃ more, after = .mk space.root (space.joins ++ more) ∧ Unwritten more

/-- Open spaces that were finished before are finished spaces with more implicit joins. -/
theorem ofSpace_spreads {spaces : List Resolved.Space} {more : List OpenSpace}
    (h : ClauseSpreads (spaces.map OpenSpace.ofSpace) more) :
    ∃ spaces', more = spaces'.map OpenSpace.ofSpace
      ∧ List.Forall₂ SpaceSpreads spaces spaces' := by
  induction spaces generalizing more with
  | nil =>
    cases h
    exact ⟨[], rfl, .nil⟩
  | cons first spaces ih =>
    obtain ⟨first', rest, ⟨added, rfl, hadded⟩, hrest, rfl⟩ := List.forall₂_cons_left_iff.mp h
    obtain ⟨spaces', rfl, hspaces⟩ := ih hrest
    exact ⟨.mk first.root (first.joins ++ added) :: spaces', rfl,
      .cons ⟨added, rfl, hadded⟩ hspaces⟩

theorem close_ofSpace (spaces : List Resolved.Space) :
    Levels.close (spaces.map OpenSpace.ofSpace) = .ok spaces := by
  induction spaces with
  | nil => rfl
  | cons first spaces ih =>
    simp only [Levels.close] at ih
    simp only [Levels.close, List.map_cons, List.mapM_cons, ih]
    cases first
    rfl

namespace Levels

/-- Spaces were opened in the innermost from clause and filled; paths did the rest. -/
def Appends (levels : Levels) (spaces : List Resolved.Space) (after : Levels) : Prop :=
  ∃ opened opened' below below', levels = opened :: below
    ∧ after = (opened' ++ spaces.map OpenSpace.ofSpace) :: below'
    ∧ ClauseSpreads opened opened' ∧ Spreads below below'

theorem appends_nil {levels : Levels} (h : levels ≠ []) : levels.Appends [] levels := by
  cases levels with
  | nil => exact (h rfl).elim
  | cons opened below =>
    exact ⟨opened, opened, below, below, rfl, by simp, clauseSpreads_refl _, .refl _⟩

theorem Appends.ne_nil {levels after : Levels} {spaces : List Resolved.Space}
    (h : levels.Appends spaces after) : after ≠ [] := by
  obtain ⟨opened, opened', below, below', -, rfl, -⟩ := h
  exact List.cons_ne_nil _ _

theorem Appends.trans {levels between after : Levels} {spaces more : List Resolved.Space}
    (h : levels.Appends spaces between) (h' : between.Appends more after) :
    ∃ spaces', levels.Appends (spaces' ++ more) after
      ∧ List.Forall₂ SpaceSpreads spaces spaces' := by
  obtain ⟨opened, opened', below, below', rfl, rfl, hopened, hbelow⟩ := h
  obtain ⟨first, first', rest, rest', hlevels, rfl, hfirst, hrest⟩ := h'
  cases hlevels
  obtain ⟨front, back, rfl, hfront, hback⟩ := hfirst.of_append
  obtain ⟨spaces', rfl, hspaces⟩ := ofSpace_spreads hback
  refine ⟨spaces', ⟨opened, front, below, rest', rfl, ?_, hopened.trans hfront,
    hbelow.trans hrest⟩, hspaces⟩
  simp

/-- The spaces of a level are finished when it is left. -/
theorem Appends.finished {levels between after : Levels} {spaces : List Resolved.Space}
    (h : Appends ([] :: levels) spaces between) (hspreads : between.Spreads after) :
    ∃ spaces', close (after.headD []) = .ok spaces' ∧ List.Forall₂ SpaceSpreads spaces spaces' := by
  obtain ⟨opened, opened', below, below', hlevels, rfl, hopened, -⟩ := h
  cases hlevels
  cases hopened
  cases hspreads with
  | cons hclause _ =>
    obtain ⟨spaces', rfl, hspaces⟩ := ofSpace_spreads hclause
    exact ⟨spaces', close_ofSpace spaces', hspaces⟩

end Levels

/-! ## Written joins -/

namespace Step

variable {schema : Schema} {before : Context}

/-- A written join is put behind what was in the space that was opened last. -/
def Writes (before : Context) (element : FromElement) (after : Context) : Prop :=
  ∃ more, before.levels.Grows (more ++ [.mk element none]) after.levels ∧ Unwritten more
    ∧ Resolved.IsWrittenJoin element

theorem Writes.gains {element : FromElement} {after : Context}
    (h : Writes before element after) : before.levels.Gains (.mk element none) after.levels := by
  obtain ⟨more, hgrows, hmore, helement⟩ := h
  exact ⟨more, [], hgrows, hmore, fun _ h => (by cases h), helement.isExplicit none⟩

theorem Writes.element {element : FromElement} {after : Context}
    (h : Writes before element after) : Resolved.IsWrittenJoin element := by
  obtain ⟨-, -, -, helement⟩ := h
  exact helement

theorem attach_writes {id : SpaceId} (hlast : before.levels.Last id) {element : FromElement}
    (helement : Resolved.IsWrittenJoin element) :
    Ends schema before (attach id element) fun _ after => Writes before element after :=
  ends_place fun _ _ _ _ hopened hid hadd _ =>
    ⟨[], hlast.addJoin hopened hid hadd, fun _ h => (by cases h), helement⟩

/-- A join that is attached where paths only spread joins is written there. -/
theorem Attaches.writes {id : SpaceId} (hlast : before.levels.Last id) {element : FromElement}
    {after : Context} (h : Attaches SpreadsAcross schema id before element after) :
    Writes before element after := by
  obtain ⟨hwritten, between, hspreads, hrun⟩ := h
  obtain ⟨more, hgrows, hmore⟩ := Levels.Spreads.grows hspreads hlast
  obtain ⟨most, hlater, hmost, -⟩ := attach_writes (hgrows.last hlast) hwritten () after hrun
  refine ⟨more ++ most, ?_, hmore.append hmost, hwritten⟩
  rw [List.append_assoc]
  exact hgrows.trans hlater

theorem crossJoin_writes {id : SpaceId} (hlast : before.levels.Last id) (entity : EntityReference)
    (alias? : Option String) :
    Ends schema before (crossJoin id entity alias?) fun element after =>
      Writes before element after :=
  ends_mono (crossJoin_attaches (spreadMotion schema fun _ => True) entity alias?)
    fun _ _ h => h.writes hlast

theorem explicitJoin_writes {id : SpaceId} (hlast : before.levels.Last id) (path : DottedName)
    (alias? : Option String) (narrowed? : Option EntityReference) (joinType : JoinType)
    (fetched : Bool) :
    Ends schema before (explicitJoin id path alias? narrowed? joinType fetched)
      fun element after => Writes before element after :=
  ends_mono (explicitJoin_attaches (spreadMotion schema fun _ => True) path alias? narrowed?
    joinType fetched) fun _ _ h => h.writes hlast

theorem joinTarget_writes {id : SpaceId} (hlast : before.levels.Last id)
    (target : Phrase.JoinTarget) (alias? : Option String) (joinType : JoinType) (fetched : Bool) :
    Ends schema before (joinTarget id target alias? joinType fetched)
      fun element after => Writes before element after :=
  ends_mono (joinTarget_attaches (spreadMotion schema fun _ => True) target alias? joinType
    fetched) fun _ _ h => h.writes hlast

/-- The restriction is put on the first join with the number of the element. -/
theorem restrictJoins_append {front : List Join} {element : FromElement}
    (hfront : ∀ join ∈ front, join.element.uid ≠ element.uid) (rest : List Join)
    (restriction? : Option Resolved.Predicate) (condition : Resolved.Predicate) :
    OpenSpace.restrictJoins element.uid condition (front ++ .mk element restriction? :: rest)
      = front ++ .mk element (some condition) :: rest := by
  induction front with
  | nil => simp [OpenSpace.restrictJoins, Join.element]
  | cons first front ih =>
    obtain ⟨hfirst, hrest⟩ := List.forall_mem_cons.mp hfront
    simp [OpenSpace.restrictJoins, hfirst, ih hrest]

/-- The restriction is put on the join that was written for it: no other one has its number. -/
theorem restrict_grows {id : SpaceId} {levels after : Levels} {more most : List Join}
    {element : FromElement} {condition : Resolved.Predicate} (hlast : levels.Last id)
    (hgrows : levels.Grows (more ++ .mk element none :: most) after)
    (hplaced : (after.elements.map FromElement.uid).Nodup) {restricted : Levels}
    (hupdate : after.update (fun filled => .ok (filled.restrict element.uid condition)) id
      = .ok restricted) :
    levels.Grows (more ++ .mk element (some condition) :: most) restricted := by
  have hafter := hgrows.last hlast
  obtain ⟨opened, opened', root, joins, below, below', rfl, rfl, hopened, hbelow⟩ := hgrows
  obtain ⟨place, space, filled, hfill, rfl, hid, hrestrict⟩ := Levels.update_ok hupdate
  obtain ⟨habove, hright, other, others, rfl⟩ := hafter.fill hfill hid
  cases hrestrict
  -- The place is that of the last space.
  have hclause : opened' ++ [OpenSpace.rooted root (joins ++ (more ++ .mk element none :: most))]
      = place.left ++ [.rooted other others] ∧ below' = place.below := by
    simpa [Place.fill, Place.clause, habove, hright] using hfill
  obtain ⟨hspaces, rfl⟩ := hclause
  obtain ⟨rfl, hspace⟩ := List.append_inj' hspaces rfl
  cases hspace
  have hfront : ∀ join ∈ joins ++ more, join.element.uid ≠ element.uid := by
    intro join hjoin hsame
    have hclauseUids : ((joins ++ more).map (FromElement.uid ∘ Join.element)
        ++ element.uid :: most.map (FromElement.uid ∘ Join.element)).Nodup := by
      simp only [Levels.elements_cons, clauseElements, List.flatMap_append, List.flatMap_cons,
        List.flatMap_nil, OpenSpace.elements, List.map_append, List.map_cons, List.append_nil,
        List.map_map, Join.element] at hplaced
      have hspaceUids := (List.nodup_append.mp (List.nodup_append.mp hplaced).1).2.1
      simpa using (List.nodup_cons.mp hspaceUids).2
    refine (List.nodup_append.mp hclauseUids).2.2 join.element.uid ?_ element.uid
      List.mem_cons_self hsame
    exact List.mem_map.mpr ⟨join, hjoin, rfl⟩
  refine ⟨opened, place.left, root, joins, below, place.below, rfl, ?_, hopened, hbelow⟩
  rw [Place.fill, habove, Place.clause, hright, OpenSpace.restrict, ← List.append_assoc joins,
    restrictJoins_append hfront]
  simp

end Step
end EntityQuery.Interpretation

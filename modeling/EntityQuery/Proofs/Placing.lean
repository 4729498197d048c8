import EntityQuery.Proofs.Outcome
import EntityQuery.Proofs.SoundContext

/-!
# Placing new elements

A new element gets the next number, is put into an open space, is registered and is bound in the
current scope. These moves are looked at together, since only after the last of them the state is
sound again.

* `OpenSpace.Adds`: a space with one element more.
* `Context.Places`: the state after an element was made and placed.
* `Context.Places.sound`, `Context.Places.extending`: placing keeps a state sound.
-/

namespace EntityQuery.Interpretation

open Resolved (Rules joinsBound joinsHold)

namespace OpenSpace

/-- The second space is the first one with an element more. -/
structure Adds (element : FromElement) (space filled : OpenSpace) : Prop where
  last : filled.elements = space.elements ++ [element]
  bound : filled.boundElements.Perm (element :: space.boundElements)
  own : filled.ownElements = space.ownElements
  holds : ∀ {rules : Rules} {scope : List FromElement}, space.Holds rules scope →
    rules.element scope element → filled.Holds rules scope

theorem Adds.elements {element : FromElement} {space filled : OpenSpace}
    (h : space.Adds element filled) : filled.elements.Perm (element :: space.elements) := by
  rw [h.last]
  exact List.perm_append_singleton element space.elements

theorem joinsBound_append (joins : List Resolved.Join) (element : FromElement) :
    joinsBound (joins ++ [.mk element none]) = joinsBound joins ++ [element] := by
  induction joins with
  | nil => rfl
  | cons join joins ih => simp [joinsBound, ih]

theorem joinsHold_append {rules : Rules} {scope : List FromElement} {joins : List Resolved.Join}
    {element : FromElement} (h : joinsHold rules scope joins)
    (helement : rules.element scope element) :
    joinsHold rules scope (joins ++ [.mk element none]) := by
  induction joins with
  | nil => exact ⟨⟨helement, trivial⟩, trivial⟩
  | cons join joins ih => exact ⟨h.1, ih h.2⟩

theorem addJoin_adds {space filled : OpenSpace} {element : FromElement}
    (h : space.addJoin element = .ok filled) :
    space.Adds element filled ∧ filled.root? = space.root? := by
  cases space with
  | vacant => cases h
  | rooted root joins =>
    cases h
    refine ⟨⟨?_, ?_, ?_, fun hspace helement => ⟨hspace.1, joinsHold_append hspace.2 helement⟩⟩,
      rfl⟩
    · simp [elements, Resolved.Join.element]
    · simp only [boundElements, joinsBound_append]
      exact List.perm_append_singleton element (root :: joinsBound joins)
    · simp [ownElements, Resolved.Join.ownElements, Resolved.Join.restriction]

theorem setRoot_adds {space filled : OpenSpace} {element : FromElement}
    (h : space.setRoot element = .ok filled) :
    space.Adds element filled ∧ space = .vacant ∧ filled = .rooted element [] := by
  cases space with
  | rooted root joins => cases h
  | vacant =>
    cases h
    exact ⟨⟨rfl, .refl _, rfl, fun _ helement => ⟨helement, trivial⟩⟩, rfl, rfl⟩

end OpenSpace

namespace Place

variable {place : Place} {space filled : OpenSpace} {element : FromElement}

theorem clauseElements_perm (place : Place) (h : space.Adds element filled) :
    (clauseElements (place.clause filled)).Perm
      (element :: clauseElements (place.clause space)) := by
  simp only [clause, clauseElements, List.flatMap_append, List.flatMap_cons]
  refine ((h.elements.append_right _).append_left _).trans ?_
  exact List.perm_middle

theorem elements_perm (place : Place) (h : space.Adds element filled) :
    (place.fill filled).elements.Perm (element :: (place.fill space).elements) := by
  simp only [fill, Levels.elements, List.flatMap_append, List.flatMap_cons]
  refine (((place.clauseElements_perm h).append_right _).append_left _).trans ?_
  exact List.perm_middle

theorem boundElements_perm (place : Place) (h : space.Adds element filled) :
    (place.fill filled).boundElements.Perm (element :: (place.fill space).boundElements) := by
  simp only [fill, clause, Levels.boundElements, List.flatMap_append, List.flatMap_cons]
  refine (((((h.bound.append_right _).append_left _).trans List.perm_middle).append_right
    _).append_left _).trans ?_
  exact List.perm_middle

/-- An element in a place stands in no other one. -/
theorem not_mem_others (hplaced : ((place.fill space).elements.map FromElement.uid).Nodup)
    (helement : element ∈ space.elements) {other : OpenSpace} (hother : other ∈ place.others) :
    element ∉ other.elements := by
  intro hmem
  have hcount := List.nodup_iff_count_le_one.mp (List.Nodup.of_map _ hplaced) element
  have hself := List.count_pos_iff.mpr helement
  have hmore := List.count_pos_iff.mpr (List.mem_flatMap.mpr ⟨other, hother, hmem⟩)
  simp only [Levels.elements_eq_flatMap, fill, clause, others, List.flatten_append,
    List.flatten_cons, List.flatMap_append, List.flatMap_cons, List.count_append] at hcount hmore
  omega

/-- The elements of the levels stay framed when a place gets made-up variables only, or is in the
current clause. -/
theorem fill_framed {frames : List (List FromElement)} (h : (place.fill space).Framed frames)
    (hnew : ∀ other ∈ filled.elements, other ∈ space.elements ∨ other.binding.generated = true
      ∨ place.above = [] ∧ other ∈ frames.headD []) :
    (place.fill filled).Framed frames := by
  obtain ⟨above, left, right, below⟩ := place
  induction above generalizing frames with
  | nil =>
    cases frames with
    | nil => cases h
    | cons frame outer =>
      obtain ⟨hclause, hbelow⟩ := h
      refine ⟨fun other hother hwritten => ?_, hbelow⟩
      simp only [clause, clauseElements, List.flatMap_append, List.flatMap_cons, List.mem_append]
        at hother hclause
      rcases hother with hleft | hfilled | hright
      · exact hclause other (.inl hleft) hwritten
      · rcases hnew other hfilled with hold | hgenerated | ⟨-, hframe⟩
        · exact hclause other (.inr (.inl hold)) hwritten
        · simp [hgenerated] at hwritten
        · exact hframe
      · exact hclause other (.inr (.inr hright)) hwritten
  | cons spaces above ih =>
    cases frames with
    | nil => cases h
    | cons frame outer =>
      obtain ⟨hclause, hrest⟩ := h
      refine ⟨hclause, ih hrest fun other hother => ?_⟩
      rcases hnew other hother with hold | hgenerated | ⟨habove, -⟩
      · exact .inl hold
      · exact .inr (.inl hgenerated)
      · cases habove

end Place

theorem Levels.Framed.grow_head {levels : Levels} {frame larger : List FromElement}
    {outer : List (List FromElement)} (h : levels.Framed (frame :: outer)) (hsub : frame ⊆ larger) :
    levels.Framed (larger :: outer) := by
  cases levels with
  | nil => trivial
  | cons spaces below => exact ⟨fun other hother hwritten => hsub (h.1 other hother hwritten), h.2⟩

namespace Context

/-- The second state is the first one after an element was made, put into a place, registered and
bound. -/
structure Places (schema : Schema) (clean : Prop) (before : Context) (element : FromElement)
    (place : Place) (space filled : OpenSpace) (after : Context) : Prop where
  uid : element.uid = before.nextUid
  nextUid : after.nextUid = before.nextUid + 1
  nextAlias : before.nextAlias ≤ after.nextAlias
  registered : after.registered = element :: before.registered
  opened : before.levels = place.fill space
  levels : after.levels = place.fill filled
  adds : space.Adds element filled
  binds : before.trail.bind element = .ok after.trail
  /-- All that the element was reached by was in reach at the place. -/
  parts : ∀ part ∈ element.chain,
    part = element ∨ part ∈ before.registered ∧ part.unwrapped ∈ place.scope space
  bare : element.unwrapped = element
  ordered : element.Ordered
  typed : element.JoinTyped schema after.narrowings
  marks : before.narrowings <+: after.narrowings
  marked : ∀ mark ∈ after.narrowings, mark ∈ before.narrowings ∨ mark.uid = element.uid
  named : clean → element.Named after.nextAlias
  drawn : element.binding.generated = true ∧ element.aliasName = generatedAlias before.nextAlias
    ∨ element.binding.generated = false ∧ place.above = []
  /-- An implicit join is remembered for the first time, in the space of its source. -/
  remembers : element.implicitStep? = none ∧ after.implicitJoins = before.implicitJoins
    ∨ ∃ source name, element.implicitStep? = some (source, name)
      ∧ element.binding.generated = true ∧ source ∈ before.registered
      ∧ source.unwrapped ∈ space.elements ∧ before.implicitJoin? source.uid name = none
      ∧ after.implicitJoins = ⟨source.uid, name, element.uid⟩ :: before.implicitJoins

namespace Places

variable {schema : Schema} {clean : Prop} {before after : Context} {element : FromElement}
  {place : Place} {space filled : OpenSpace}

theorem elements_subset (h : Places schema clean before element place space filled after) :
    space.elements ⊆ filled.elements := by
  intro other hother
  exact h.adds.elements.mem_iff.mpr (List.mem_cons_of_mem _ hother)

theorem grow (h : Places schema clean before element place space filled after) :
    before.levels.Grow after.levels := by
  rw [h.opened, h.levels]
  exact place.fill_grows h.elements_subset

theorem mem_filled (h : Places schema clean before element place space filled after) :
    element ∈ filled.elements :=
  h.adds.elements.mem_iff.mpr List.mem_cons_self

theorem within (h : Places schema clean before element place space filled after) :
    element.Within (place.scope filled) := by
  intro part hpart
  rcases h.parts part hpart with rfl | ⟨-, hscope⟩
  · rw [h.bare]
    exact Place.mem_scope h.mem_filled
  · exact Place.scope_mono h.elements_subset hscope

theorem reaches (h : Places schema clean before element place space filled after) :
    after.Reaches element := by
  refine ⟨by rw [h.registered]; exact List.mem_cons_self, ?_⟩
  rw [scope, h.levels]
  exact h.within.mono Place.scope_subset_fill

theorem closed (h : Places schema clean before element place space filled after)
    (hsound : before.Sound schema clean) :
    ∀ other ∈ after.registered, other.chain ⊆ after.registered := by
  rw [h.registered]
  intro other hother part hpart
  rcases List.mem_cons.mp hother with rfl | hother
  · rcases h.parts part hpart with rfl | ⟨hregistered, -⟩
    · exact List.mem_cons_self
    · exact List.mem_cons_of_mem _ hregistered
  · exact List.mem_cons_of_mem _ (hsound.closed other hother hpart)

theorem fit (h : Places schema clean before element place space filled after)
    (hsound : before.Sound schema clean) : after.levels.Fit (after.rules schema clean) := by
  have himp : (before.rules schema clean).Implies (after.rules schema clean) := by
    refine Resolved.builtRules_implies ?_
    rw [h.registered]
    exact List.subset_cons_self _ _
  have hself : (after.rules schema clean).Implies (after.rules schema clean) :=
    Resolved.builtRules_implies fun _ h => h
  have hopen : (place.fill space).Fit (after.rules schema clean) := by
    rw [← h.opened]
    exact hsound.fit.mono himp
  rw [h.levels]
  refine Place.fill_fit hself h.elements_subset hopen ?_
  refine h.adds.holds ?_ ⟨h.reaches.1, h.within⟩
  have hspace : space ∈ place.clause space := by simp [Place.clause]
  exact (Place.fit_clause hopen space hspace).mono hself (Place.scope_mono h.elements_subset)

theorem placed (h : Places schema clean before element place space filled after)
    (hsound : before.Sound schema clean) : (after.levels.elements.map FromElement.uid).Nodup := by
  have hperm := (place.elements_perm h.adds).map FromElement.uid
  rw [h.levels, hperm.nodup_iff, List.map_cons, List.nodup_cons, ← h.opened]
  refine ⟨fun hmem => ?_, hsound.placed⟩
  obtain ⟨other, hother, huid⟩ := List.mem_map.mp hmem
  have hregistered := (hsound.fit.element (Resolved.builtRules_implies fun _ h => h) other hother).1
  exact hsound.uid_ne h.uid hregistered huid

theorem framed (h : Places schema clean before element place space filled after)
    (hsound : before.Sound schema clean) : after.levels.Framed after.trail.frames := by
  obtain ⟨htrail, -⟩ := Trail.bind_ok h.binds
  have hopen := hsound.framed
  rw [h.opened] at hopen
  rw [h.levels, htrail, Trail.frames_element]
  cases hframes : before.trail.frames with
  | nil => exact absurd hframes (Trail.frames_ne_nil _)
  | cons frame outer =>
    rw [hframes] at hopen
    refine Place.fill_framed (hopen.grow_head (List.subset_append_left _ [element])) ?_
    intro other hother
    rcases List.mem_cons.mp (h.adds.elements.mem_iff.mp hother) with rfl | hold
    · rcases h.drawn with ⟨hgenerated, -⟩ | ⟨-, habove⟩
      · exact .inr (.inl hgenerated)
      · exact .inr (.inr ⟨habove, by simp⟩)
    · exact .inl hold

/-- No element of the clause has the variable of the new one. -/
theorem alias_free (h : Places schema clean before element place space filled after)
    (hsound : before.Sound schema clean) (hclean : clean) :
    ∀ other ∈ clauseElements (place.clause space), other.aliasName ≠ element.aliasName := by
  intro other hother heq
  have hplace : other ∈ before.levels.elements := by
    rw [h.opened]
    exact Place.scope_subset_fill (List.mem_append_left _ hother)
  have hregistered := (hsound.fit.element (Resolved.builtRules_implies fun _ h => h) other hplace).1
  have hother' := hsound.named hclean other hregistered
  rcases h.drawn with ⟨-, halias⟩ | ⟨hwritten, habove⟩
  · -- The new variable was made up just now.
    cases hgenerated : other.binding.generated with
    | false => exact hother'.2 hgenerated _ (heq.trans halias)
    | true =>
      obtain ⟨number, hlt, hnumber⟩ := hother'.1 hgenerated
      have hsame := generatedAlias_injective (hnumber.symm.trans (heq.trans halias))
      omega
  · cases hgenerated : other.binding.generated with
    | true =>
      obtain ⟨number, -, hnumber⟩ := hother'.1 hgenerated
      exact (h.named hclean).2 hwritten number (heq.symm.trans hnumber)
    | false =>
      -- Both variables are written, so that both were bound in the current scope.
      obtain ⟨-, hfree⟩ := Trail.bind_ok h.binds
      have hframed := hsound.framed
      obtain ⟨above, left, right, below⟩ := place
      cases habove
      rw [h.opened] at hframed
      cases hframes : before.trail.frames with
      | nil => exact absurd hframes (Trail.frames_ne_nil _)
      | cons frame outer =>
        rw [hframes] at hframed hfree
        exact hfree other (hframed.1 other hother hgenerated) heq

theorem distinct (h : Places schema clean before element place space filled after)
    (hsound : before.Sound schema clean) (hclean : clean) :
    ∀ spaces ∈ after.levels, ((clauseElements spaces).map FromElement.aliasName).Nodup := by
  have hdistinct := hsound.distinct hclean
  rw [h.opened] at hdistinct
  rw [h.levels]
  intro spaces hspaces
  rcases List.mem_append.mp hspaces with habove | hspaces
  · exact hdistinct spaces (List.mem_append_left _ habove)
  · rcases List.mem_cons.mp hspaces with rfl | hbelow
    · have hperm := (place.clauseElements_perm h.adds).map FromElement.aliasName
      rw [hperm.nodup_iff, List.map_cons, List.nodup_cons]
      refine ⟨fun hmem => ?_, hdistinct _ (by simp [Place.fill])⟩
      obtain ⟨other, hother, halias⟩ := List.mem_map.mp hmem
      exact h.alias_free hsound hclean other hother halias
    · exact hdistinct spaces (by simp [Place.fill, hbelow])

theorem joins (h : Places schema clean before element place space filled after) :
    ∀ known ∈ after.implicitJoins, known ∈ before.implicitJoins
      ∨ known.join = element.uid ∧ ∃ source ∈ before.registered, source.uid = known.source
        ∧ source.unwrapped ∈ space.elements := by
  intro known hknown
  rcases h.remembers with ⟨-, hsame⟩ | ⟨source, name, -, -, hsource, hspace, -, hmore⟩
  · exact .inl (hsame ▸ hknown)
  · rw [hmore] at hknown
    rcases List.mem_cons.mp hknown with rfl | hold
    · exact .inr ⟨rfl, source, hsource, rfl, hspace⟩
    · exact .inl hold

theorem recalls (h : Places schema clean before element place space filled after)
    (hsound : before.Sound schema clean) : Recalls after.registered after.implicitJoins := by
  rw [h.registered]
  rcases h.remembers with ⟨hstep, hsame⟩ | ⟨source, name, hstep, -, -, -, hnone, hmore⟩
  · rw [hsame]
    exact hsound.recalls.register hstep
  · rw [hmore]
    refine hsound.recalls.remember hstep fun entry hentry => ?_
    exact hsound.recalls.fresh hnone hentry

/-- A variable that was not written was drawn just now. -/
theorem madeUp (h : Places schema clean before element place space filled after)
    (hmade : element.isDeclared = false) :
    ∃ number, element.aliasName = generatedAlias number := by
  rcases h.drawn with ⟨-, halias⟩ | ⟨hwritten, -⟩
  · exact ⟨_, halias⟩
  · rcases h.remembers with ⟨hstep, -⟩ | ⟨source, name, -, hgenerated, -⟩
    · simp [FromElement.isDeclared, FromElement.implicitStep?_none hstep, hwritten] at hmade
    · simp [hwritten] at hgenerated

/-- An implicit join is put behind its source. -/
theorem trailing (h : Places schema clean before element place space filled after)
    (hsound : before.Sound schema clean) :
    ∀ other ∈ after.levels.flatten, FromElement.Trailing other.elements := by
  have hopen := hsound.trailing
  rw [h.opened] at hopen
  rw [h.levels]
  intro other hother
  rcases Place.mem_fill.mp hother with rfl | hother
  · rw [h.adds.last]
    refine (hopen space (Place.mem_fill.mpr (.inl rfl))).append fun source name hstep => ?_
    rcases h.remembers with ⟨hnone, -⟩ | ⟨start, declared, hsome, -, -, hspace, -⟩
    · rw [hnone] at hstep
      cases hstep
    · rw [hsome, Option.some.injEq, Prod.mk.injEq] at hstep
      exact hstep.1 ▸ hspace
  · exact hopen other (Place.mem_fill.mpr (.inr hother))

theorem joined (h : Places schema clean before element place space filled after)
    (hsound : before.Sound schema clean) :
    ∀ known ∈ after.implicitJoins, ∀ source ∈ after.registered, ∀ join ∈ after.registered,
      source.uid = known.source → join.uid = known.join → ∀ other ∈ after.levels.flatten,
        source.unwrapped ∈ other.elements → join.unwrapped ∈ other.elements := by
  rw [h.registered, h.levels]
  intro known hknown source hsource join hjoin huid hjoinUid other hother hmem
  rcases h.joins known hknown with hold | ⟨hnew, start, hstart, hstartUid, hspace⟩
  · have hsource := hsound.registered_of_known h.uid hold hsource (.inl huid)
    have hjoin := hsound.registered_of_known h.uid hold hjoin (.inr hjoinUid)
    have hjoined := hsound.joined known hold source hsource join hjoin huid hjoinUid
    rw [h.opened] at hjoined
    rcases Place.mem_fill.mp hother with rfl | hother
    · rcases List.mem_cons.mp (h.adds.elements.mem_iff.mp hmem) with heq | hmem
      · have hregistered := hsound.closed source hsource source.unwrapped_mem_chain
        exact absurd (congrArg FromElement.uid heq) (hsound.uid_ne h.uid hregistered)
      · exact h.elements_subset (hjoined space (Place.mem_fill.mpr (.inl rfl)) hmem)
    · exact hjoined other (Place.mem_fill.mpr (.inr hother)) hmem
  · rcases List.mem_cons.mp hsource with rfl | hsource
    · exact absurd (hstartUid.trans huid.symm) (hsound.uid_ne h.uid hstart)
    have hsame : source = start := hsound.unique source hsource start hstart
      (huid.trans hstartUid.symm)
    subst hsame
    rcases List.mem_cons.mp hjoin with rfl | hjoin
    · rcases Place.mem_fill.mp hother with rfl | hother
      · rw [h.bare]
        exact h.mem_filled
      · have hplaced := hsound.placed
        rw [h.opened] at hplaced
        exact absurd hmem (Place.not_mem_others hplaced hspace hother)
    · exact absurd (hjoinUid.trans hnew) (hsound.uid_ne h.uid hjoin)

/-- Placing leaves the restrictions as they are. -/
theorem secluded (h : Places schema clean before element place space filled after)
    (hsound : before.Sound schema clean) : after.levels.Secluded := by
  have hopen := hsound.secluded
  rw [h.opened] at hopen
  rw [h.levels]
  refine Place.fill_secluded h.elements_subset hopen fun own hown => ?_
  rw [h.adds.own] at hown
  refine List.append_subset.mpr ⟨?_, List.subset_append_right _ _⟩
    (Place.secluded_at hopen own hown)
  exact List.Subset.trans h.elements_subset (List.subset_append_left _ _)

/-- Placing an element keeps the state sound. -/
theorem sound (h : Places schema clean before element place space filled after)
    (hsound : before.Sound schema clean) : after.Sound schema clean where
  closed := h.closed hsound
  fresh := by
    rw [h.registered, h.nextUid]
    exact hsound.fresh_cons h.uid
  unique := by
    rw [h.registered]
    exact hsound.unique_cons h.uid
  ordered := by
    rw [h.registered]
    exact List.forall_mem_cons.mpr ⟨h.ordered, hsound.ordered⟩
  typed := by
    rw [h.registered]
    exact List.forall_mem_cons.mpr
      ⟨h.typed, fun other hother => (hsound.typed other hother).mono h.marks⟩
  marked := by
    intro mark hmark
    rw [h.nextUid]
    rcases h.marked mark hmark with hold | hnew
    · have hlt := hsound.marked mark hold
      omega
    · have huid := h.uid
      omega
  named := by
    rw [h.registered]
    exact fun hclean => List.forall_mem_cons.mpr
      ⟨h.named hclean, fun other hother => (hsound.named hclean other hother).mono h.nextAlias⟩
  bound := by
    obtain ⟨htrail, -⟩ := Trail.bind_ok h.binds
    rw [htrail]
    intro other hother
    rcases List.mem_cons.mp hother with rfl | hother
    · exact h.reaches
    · obtain ⟨hregistered, hwithin⟩ := hsound.bound other hother
      refine ⟨?_, hwithin.mono h.grow.elements⟩
      rw [h.registered]
      exact List.mem_cons_of_mem _ hregistered
  fit := h.fit hsound
  placed := h.placed hsound
  framed := h.framed hsound
  distinct := h.distinct hsound
  known := by
    intro known hknown
    rw [h.nextUid]
    rcases h.joins known hknown with hold | ⟨hnew, source, hsource, huid, -⟩
    · exact hsound.known_succ known hold
    · have hfresh := hsound.fresh source hsource
      have hown := h.uid
      exact ⟨by omega, by omega⟩
  joined := h.joined hsound
  secluded := h.secluded hsound
  recalls := h.recalls hsound
  madeUp := by
    rw [h.registered]
    exact List.forall_mem_cons.mpr ⟨h.madeUp, hsound.madeUp⟩
  trailing := h.trailing hsound

theorem accounts (h : Places schema clean before element place space filled after) :
    before.Accounts after [] := by
  intro uid
  have hperm := (place.boundElements_perm h.adds).map FromElement.uid
  rw [h.levels, hperm.count_eq, h.opened, List.map_cons, List.count_cons, h.uid, h.nextUid]
  by_cases heq : before.nextUid = uid
  · subst heq
    simp
  · simp [heq]

/-- How placing an element changes a state. -/
theorem extending (h : Places schema clean before element place space filled after)
    (hsound : before.Sound schema clean)
    (hroots : after.levels.roots.tail = before.levels.roots.tail) :
    before.Extends schema clean [] after where
  sound := h.sound hsound
  uids := by
    rw [h.nextUid]
    omega
  registered := by
    rw [h.registered]
    exact List.subset_cons_self _ _
  grow := h.grow
  marks := by
    obtain ⟨htrail, -⟩ := Trail.bind_ok h.binds
    exact ⟨[.element element], htrail, by simp [Mark.isOpened]⟩
  outerRoots := hroots
  accounts := h.accounts

theorem advances (h : Places schema clean before element place space filled after)
    (hsound : before.Sound schema clean) (hroot : filled.root? = space.root?) :
    before.Advances schema clean [] after := by
  have hroots : after.levels.roots = before.levels.roots := by
    rw [h.opened, h.levels]
    exact Place.fill_roots hroot
  obtain ⟨htrail, -⟩ := Trail.bind_ok h.binds
  refine ⟨h.extending hsound (congrArg List.tail hroots), ?_, hroots⟩
  exact ⟨[.element element], htrail, by simp [Mark.isElement, Mark.element?]⟩

end Places
end Context
end EntityQuery.Interpretation

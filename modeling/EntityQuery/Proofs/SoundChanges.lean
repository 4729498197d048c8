import EntityQuery.Proofs.Placing

/-!
# Changes that keep a state sound

The changes of a state other than placing an element: registering a narrowed element, opening a
space, restricting a join, binding a result variable, and opening and leaving a level.

* `Context.Sound.reclause`: open spaces that change while every clause keeps its elements.
* `Context.Sound.idle`, `Context.Sound.narrows`, `Context.Advances.restricts`: changes on a level.
* `Context.Sound.openLevel`, `Context.Extends.leaveLevel`: a level of its own.
-/

namespace EntityQuery.Interpretation

open Resolved (Rules joinsBound joinsHold spacesBound)

/-! ## Restrictions -/

namespace OpenSpace

/-- A restriction binds no more than its predicate does. -/
theorem restrictJoins_count (uid : Nat) (condition : Resolved.Predicate)
    (joins : List Resolved.Join) (number : Nat) :
    ((joinsBound (restrictJoins uid condition joins)).map FromElement.uid).count number
      ≤ ((joinsBound joins).map FromElement.uid).count number
        + (condition.boundElements.map FromElement.uid).count number := by
  induction joins with
  | nil => simp [restrictJoins, joinsBound]
  | cons join joins ih =>
    obtain ⟨element, restriction⟩ := join
    simp only [restrictJoins]
    split
    · simp only [joinsBound, Resolved.Join.boundElements, Resolved.restrictionBound,
        Resolved.Join.element, List.cons_append, List.map_cons, List.map_append, List.count_cons,
        List.count_append]
      omega
    · simp only [joinsBound, Resolved.Join.boundElements, List.cons_append, List.map_cons,
        List.map_append, List.count_cons, List.count_append]
      omega

theorem restrictJoins_elements (uid : Nat) (condition : Resolved.Predicate)
    (joins : List Resolved.Join) :
    (restrictJoins uid condition joins).map Resolved.Join.element
      = joins.map Resolved.Join.element := by
  induction joins with
  | nil => rfl
  | cons join joins ih =>
    simp only [restrictJoins]
    split
    · rfl
    · rw [List.map_cons, List.map_cons, ih]

theorem restrictJoins_holds {rules : Resolved.Rules} {scope : List FromElement} {uid : Nat}
    {condition : Resolved.Predicate} {joins : List Resolved.Join}
    (h : joinsHold rules scope joins) (hcondition : condition.Holds rules scope) :
    joinsHold rules scope (restrictJoins uid condition joins) := by
  induction joins with
  | nil => trivial
  | cons join joins ih =>
    obtain ⟨element, restriction⟩ := join
    simp only [restrictJoins]
    split
    · exact ⟨⟨h.1.1, hcondition⟩, h.2⟩
    · exact ⟨h.1, ih h.2⟩

theorem restrict_elements (space : OpenSpace) (uid : Nat) (condition : Resolved.Predicate) :
    (space.restrict uid condition).elements = space.elements := by
  cases space with
  | vacant => rfl
  | rooted root joins => simp [restrict, elements, restrictJoins_elements]

theorem restrict_root? (space : OpenSpace) (uid : Nat) (condition : Resolved.Predicate) :
    (space.restrict uid condition).root? = space.root? := by
  cases space <;> rfl

theorem restrict_holds {rules : Resolved.Rules} {scope : List FromElement} {space : OpenSpace}
    {uid : Nat} {condition : Resolved.Predicate} (h : space.Holds rules scope)
    (hcondition : condition.Holds rules scope) :
    (space.restrict uid condition).Holds rules scope := by
  cases space with
  | vacant => trivial
  | rooted root joins => exact ⟨h.1, restrictJoins_holds h.2 hcondition⟩

theorem restrictJoins_own (uid : Nat) (condition : Resolved.Predicate)
    (joins : List Resolved.Join) :
    (restrictJoins uid condition joins).flatMap Resolved.Join.ownElements
      ⊆ joins.flatMap Resolved.Join.ownElements ++ condition.ownElements := by
  induction joins with
  | nil => simp [restrictJoins]
  | cons join joins ih =>
    simp only [restrictJoins]
    split
    · intro element hmem
      simp only [List.flatMap_cons, List.mem_append] at hmem ⊢
      rcases hmem with hown | hrest
      · exact .inr hown
      · exact .inl (.inr hrest)
    · intro element hmem
      simp only [List.flatMap_cons, List.mem_append] at hmem ⊢
      rcases hmem with hown | hrest
      · exact .inl (.inl hown)
      · rcases List.mem_append.mp (ih hrest) with hold | hnew
        · exact .inl (.inr hold)
        · exact .inr hnew

/-- A space stays secluded when what the restriction mentions is in reach of it. -/
theorem restrict_secluded {space : OpenSpace} {outer : List FromElement}
    (h : space.Secluded outer) (uid : Nat) {condition : Resolved.Predicate}
    (hcondition : ∀ element ∈ condition.ownElements,
      element.unwrapped ∈ space.elements ++ outer) :
    (space.restrict uid condition).Secluded outer := by
  intro element helement
  rw [restrict_elements]
  cases space with
  | vacant => cases helement
  | rooted root joins =>
    rcases List.mem_append.mp (restrictJoins_own uid condition joins helement) with hold | hnew
    · exact h element hold
    · exact hcondition element hnew

theorem restrict_count (space : OpenSpace) (uid : Nat) (condition : Resolved.Predicate)
    (number : Nat) :
    ((space.restrict uid condition).boundElements.map FromElement.uid).count number
      ≤ (space.boundElements.map FromElement.uid).count number
        + (condition.boundElements.map FromElement.uid).count number := by
  cases space with
  | vacant => simp [restrict, boundElements]
  | rooted root joins =>
    have hcount := restrictJoins_count uid condition joins number
    simp only [restrict, boundElements, List.map_cons, List.count_cons]
    omega

end OpenSpace

/-! ## The same clauses -/

namespace Levels

theorem elements_eq_flatten (levels : Levels) :
    levels.elements = (levels.map clauseElements).flatten :=
  rfl

theorem Framed.congr {levels other : Levels} {frames : List (List FromElement)}
    (h : levels.Framed frames) (heq : other.map clauseElements = levels.map clauseElements) :
    other.Framed frames := by
  induction levels generalizing other frames with
  | nil =>
    have hnil : other = [] := by simpa using heq
    rw [hnil]
    trivial
  | cons spaces below ih =>
    cases other with
    | nil => cases heq
    | cons first rest =>
      obtain ⟨hfirst, hrest⟩ := List.cons.inj heq
      cases frames with
      | nil => cases h
      | cons frame outer => exact ⟨by rw [hfirst]; exact h.1, ih h.2 hrest⟩

theorem clauseElements_vacant (spaces : List OpenSpace) :
    clauseElements (spaces ++ [.vacant]) = clauseElements spaces := by
  simp [clauseElements, OpenSpace.elements]

/-- A space without a root meets any rules. -/
theorem Fit.vacant {rules : Rules} {spaces : List OpenSpace} {below : Levels}
    (h : Fit rules (spaces :: below)) : Fit rules ((spaces ++ [.vacant]) :: below) := by
  refine ⟨List.forall_mem_append.mpr ⟨fun space hspace => ?_, fun space hspace => ?_⟩, h.2⟩
  · rw [elements_cons, clauseElements_vacant]
    exact h.1 space hspace
  · rw [List.mem_singleton.mp hspace]
    trivial

theorem Secluded.vacant {spaces : List OpenSpace} {below : Levels}
    (h : Secluded (spaces :: below)) : Secluded ((spaces ++ [.vacant]) :: below) := by
  refine ⟨List.forall_mem_append.mpr ⟨h.1, fun space hspace => ?_⟩, h.2⟩
  rw [List.mem_singleton.mp hspace]
  exact fun _ helement => by cases helement

end Levels

namespace Place

variable {place : Place} {space filled : OpenSpace}

/-- Filling a place anew with the same elements keeps the clauses. -/
theorem clauses_eq (h : filled.elements = space.elements) :
    (place.fill filled).map clauseElements = (place.fill space).map clauseElements := by
  simp [fill, clause, clauseElements, h]

/-- From a place in the innermost level all elements are in scope. -/
theorem scope_innermost (h : place.id.level + 1 = (place.fill space).length) :
    place.scope space = (place.fill space).elements := by
  have habove : place.above = [] := by
    simp only [id, fill, List.length_append, List.length_cons] at h
    exact List.eq_nil_of_length_eq_zero (by omega)
  rw [fill, habove]
  rfl

theorem restrict_fit {rules : Rules} (himp : rules.Implies rules)
    (h : (place.fill space).Fit rules) {uid : Nat} {condition : Resolved.Predicate}
    (hcondition : condition.Holds rules (place.scope space)) :
    (place.fill (space.restrict uid condition)).Fit rules := by
  have hsub : space.elements ⊆ (space.restrict uid condition).elements := by
    rw [OpenSpace.restrict_elements]
    exact fun _ h => h
  have hspace : space.Holds rules (place.scope space) :=
    fit_clause h space (by simp [clause])
  refine fill_fit himp hsub h ?_
  exact (OpenSpace.restrict_holds hspace hcondition).mono himp (scope_mono hsub)

theorem restrict_secluded (h : (place.fill space).Secluded) {uid : Nat}
    {condition : Resolved.Predicate}
    (hcondition : ∀ element ∈ condition.ownElements,
      element.unwrapped ∈ space.elements ++ place.below.elements) :
    (place.fill (space.restrict uid condition)).Secluded := by
  refine fill_secluded ?_ h (OpenSpace.restrict_secluded (secluded_at h) uid hcondition)
  rw [OpenSpace.restrict_elements]
  exact fun _ h => h

theorem restrict_count (place : Place) (space : OpenSpace) (uid : Nat)
    (condition : Resolved.Predicate) (number : Nat) :
    ((place.fill (space.restrict uid condition)).boundElements.map FromElement.uid).count number
      ≤ ((place.fill space).boundElements.map FromElement.uid).count number
        + (condition.boundElements.map FromElement.uid).count number := by
  have hcount := OpenSpace.restrict_count space uid condition number
  simp only [fill, clause, Levels.boundElements, List.flatMap_append, List.flatMap_cons,
    List.map_append, List.count_append]
  omega

end Place

namespace Context

variable {schema : Schema} {clean : Prop} {before after : Context}

/-- Resolvers, the style of parameters and advisories do not matter. -/
theorem Sound.idle (h : before.Sound schema clean) (resolvers : List Resolver)
    (style? : Option ParameterStyle) (advisories : List Report.Advisory) :
    before.Advances schema clean [] { before with resolvers, style?, advisories } where
  sound := h.relevel { h.levelled with }
  uids := Nat.le_refl _
  registered := fun _ h => h
  grow := Levels.Grow.refl _
  marks := ⟨[], rfl, fun _ h => by cases h⟩
  outerRoots := rfl
  accounts := by
    intro uid
    simp
  elementMarks := ⟨[], rfl, fun _ h => by cases h⟩
  roots := rfl

/-- A state stays sound when its open spaces change and every clause keeps its elements. -/
theorem Sound.reclause (h : before.Sound schema clean) {levels : Levels}
    (hclauses : levels.map clauseElements = before.levels.map clauseElements)
    (hspaces : ∀ space ∈ levels.flatten, space.elements = []
      ∨ ∃ same ∈ before.levels.flatten, space.elements = same.elements)
    (hfit : levels.Fit (before.rules schema clean)) (hsecluded : levels.Secluded) :
    Sound schema clean { before with levels } := by
  have helements : levels.elements = before.levels.elements := by
    rw [Levels.elements_eq_flatten, hclauses]
    rfl
  refine h.relevel ⟨?bound, hfit, ?placed, h.framed.congr hclauses, ?distinct, ?joined, hsecluded,
    ?trailing⟩
  case bound =>
    intro other hother
    obtain ⟨hregistered, hwithin⟩ := h.bound other hother
    exact ⟨hregistered, by rw [scope, helements]; exact hwithin⟩
  case placed =>
    rw [helements]
    exact h.placed
  case distinct =>
    intro hclean spaces hmem
    have hclause := List.mem_map_of_mem (f := clauseElements) hmem
    rw [hclauses] at hclause
    obtain ⟨same, hsame, heq⟩ := List.mem_map.mp hclause
    rw [← heq]
    exact h.distinct hclean same hsame
  case joined =>
    intro known hknown source hsource join hjoin hsourceUid hjoinUid space hspace hmem
    rcases hspaces space hspace with hnil | ⟨same, hsame, heq⟩
    · rw [hnil] at hmem
      cases hmem
    · rw [heq] at hmem ⊢
      exact h.joined known hknown source hsource join hjoin hsourceUid hjoinUid same hsame hmem
  case trailing =>
    intro space hspace
    rcases hspaces space hspace with hnil | ⟨same, hsame, heq⟩
    · rw [hnil]
      exact FromElement.trailing_nil
    · rw [heq]
      exact h.trailing same hsame

/-! ## Narrowing -/

/-- A narrowed element is registered under the next number; it is bound nowhere. -/
theorem Sound.narrows (h : before.Sound schema clean) {element : FromElement}
    (helement : before.Reaches element) (target : EntityReference) :
    let narrowed := FromElement.treated
      ⟨before.nextUid, element.aliasName, element.binding.generated, target.type⟩ element
    let after : Context := { before with
      nextUid := before.nextUid + 1
      registered := narrowed :: before.registered
      narrowings := before.narrowings.add element.uid target }
    before.Advances schema clean [] after ∧ after.Reaches narrowed := by
  intro narrowed after
  obtain ⟨hregistered, hwithin⟩ := helement
  have hsub : before.registered ⊆ after.registered := List.subset_cons_self _ _
  have hchain : narrowed.chain ⊆ after.registered :=
    List.cons_subset.mpr
      ⟨List.mem_cons_self, List.Subset.trans (h.closed element hregistered) hsub⟩
  have hsound : after.Sound schema clean := {
    closed := List.forall_mem_cons.mpr
      ⟨hchain, fun other hother => List.Subset.trans (h.closed other hother) hsub⟩
    fresh := h.fresh_cons rfl
    unique := h.unique_cons rfl
    ordered := List.forall_mem_cons.mpr ⟨h.fresh element hregistered, h.ordered⟩
    typed := List.forall_mem_cons.mpr
      ⟨trivial, fun other hother => (h.typed other hother).mono (Narrowings.prefix_add _ _ _)⟩
    marked := by
      intro mark hmark
      rcases Narrowings.mem_add hmark with hold | hnew
      · exact Nat.lt_succ_of_lt (h.marked mark hold)
      · rw [hnew]
        exact Nat.lt_succ_of_lt (h.fresh element hregistered)
    -- The narrowed element has the variable of what it narrows.
    named := fun hclean => List.forall_mem_cons.mpr
      ⟨h.named hclean element hregistered, h.named hclean⟩
    bound := fun other hother => ⟨hsub (h.bound other hother).1, (h.bound other hother).2⟩
    fit := h.fit.mono (Resolved.builtRules_implies hsub)
    placed := h.placed
    framed := h.framed
    distinct := h.distinct
    known := h.known_succ
    joined := by
      intro known hknown source hsource join hjoin hsourceUid hjoinUid
      exact h.joined known hknown
        source (h.registered_of_known rfl hknown hsource (.inl hsourceUid))
        join (h.registered_of_known rfl hknown hjoin (.inr hjoinUid)) hsourceUid hjoinUid
    secluded := h.secluded
    recalls := h.recalls.register rfl
    madeUp := by
      refine List.forall_mem_cons.mpr ⟨fun hmade => h.madeUp element hregistered ?_, h.madeUp⟩
      have hgenerated : narrowed.binding.generated = true := by
        simpa [FromElement.isDeclared, FromElement.isImplicit, FromElement.join?] using hmade
      change element.binding.generated = true at hgenerated
      simp [FromElement.isDeclared, hgenerated]
    trailing := h.trailing }
  refine ⟨⟨⟨hsound, Nat.le_succ _, hsub, Levels.Grow.refl _, ⟨[], rfl, fun _ h => by cases h⟩, rfl,
    fun uid => by simp [after]⟩, ⟨[], rfl, fun _ h => by cases h⟩, rfl⟩, List.mem_cons_self, ?_⟩
  intro part hpart
  rcases List.mem_cons.mp hpart with rfl | hpart
  · exact hwithin.unwrapped_mem
  · exact hwithin part hpart

/-! ## Spaces -/

/-- An open space without a root holds nothing. -/
theorem Sound.opensSpace (h : before.Sound schema clean) {id : SpaceId} {levels : Levels}
    (hopen : before.levels.openSpace = .ok (id, levels)) :
    before.Extends schema clean [] { before with levels }
      ∧ ∃ spaces below, before.levels = spaces :: below
        ∧ levels = (spaces ++ [.vacant]) :: below ∧ id = ⟨below.length, spaces.length⟩ := by
  cases hlevels : before.levels with
  | nil =>
    rw [hlevels] at hopen
    cases hopen
  | cons spaces below =>
    rw [hlevels] at hopen
    cases hopen
    have hfit := h.fit
    have hsecluded := h.secluded
    rw [hlevels] at hfit hsecluded
    have hsound : Sound schema clean
        { before with levels := (spaces ++ [.vacant]) :: below } := by
      refine h.reclause ?_ (fun space hspace => ?_) hfit.vacant hsecluded.vacant
      · rw [hlevels, List.map_cons, List.map_cons, Levels.clauseElements_vacant]
      · rw [hlevels]
        simp only [List.flatten_cons, List.mem_append, List.mem_singleton] at hspace ⊢
        rcases hspace with (hold | rfl) | hbelow
        · exact .inr ⟨space, .inl hold, rfl⟩
        · exact .inl rfl
        · exact .inr ⟨space, .inr hbelow, rfl⟩
    refine ⟨⟨hsound, Nat.le_refl _, fun _ h => h, ?_, ⟨[], rfl, fun _ h => by cases h⟩, ?_, ?_⟩,
      spaces, below, rfl, rfl, rfl⟩
    · rw [hlevels]
      exact .cons (by rw [Levels.clauseElements_vacant]; exact fun _ h => h) (Levels.Grow.refl _)
    · rw [hlevels]
      rfl
    · intro uid
      simp [hlevels, Levels.boundElements, OpenSpace.boundElements]

/-- A predicate that was built in the current level is set as the restriction of a join there. What
it mentions outside nested queries is in reach of the space of the join. -/
theorem Advances.restricts {condition : Resolved.Predicate} {uid : Nat} {id : SpaceId}
    {levels : Levels} (h : before.Advances schema clean condition.boundElements after)
    (hcondition : condition.Holds (after.rules schema clean) after.scope)
    (hnear : ∀ element ∈ condition.ownElements, after.levels.Near id element)
    (hid : id.level + 1 = after.levels.length)
    (hupdate : after.levels.update (fun filled => .ok (filled.restrict uid condition)) id
      = .ok levels) :
    before.Advances schema clean [] { after with levels } := by
  obtain ⟨place, space, filled, hopened, rfl, rfl, hchange⟩ := Levels.update_ok hupdate
  cases hchange
  have helements := OpenSpace.restrict_elements space uid condition
  have hroots : (place.fill (space.restrict uid condition)).roots = after.levels.roots := by
    rw [hopened]
    exact Place.fill_roots (OpenSpace.restrict_root? space uid condition)
  have hfit := h.sound.fit
  have hsecluded := h.sound.secluded
  rw [hopened] at hid hfit hsecluded
  rw [scope, hopened, ← Place.scope_innermost hid] at hcondition
  have hsound : Sound schema clean
      { after with levels := place.fill (space.restrict uid condition) } := by
    refine h.sound.reclause ?_ (fun other hother => .inr ?_)
      (Place.restrict_fit (Resolved.builtRules_implies fun _ h => h) hfit hcondition)
      (Place.restrict_secluded hsecluded
        fun element helement => hnear element helement place space hopened rfl)
    · rw [hopened]
      exact Place.clauses_eq helements
    · rw [hopened]
      rcases Place.mem_fill.mp hother with rfl | hother
      · exact ⟨space, Place.mem_fill.mpr (.inl rfl), helements⟩
      · exact ⟨other, Place.mem_fill.mpr (.inr hother), rfl⟩
  refine ⟨⟨hsound, h.uids, h.registered, ?_, h.marks, ?_, ?_⟩, h.elementMarks, hroots.trans h.roots⟩
  · refine h.grow.trans ?_
    rw [hopened]
    exact place.fill_grows (by rw [helements]; exact fun _ h => h)
  · rw [hroots]
    exact h.outerRoots
  · intro number
    have haccounts := h.accounts number
    have hcount := place.restrict_count space uid condition number
    rw [hopened] at haccounts
    simp only [List.map_nil, List.count_nil]
    omega

/-! ## Result variables -/

/-- A result variable binds no element. -/
theorem Sound.selects (h : before.Sound schema clean) {position : Nat}
    {selection : Resolved.Selection} {trail : Trail}
    (hbind : before.trail.bindSelection position selection = .ok trail) :
    before.Extends schema clean [] { before with trail } := by
  have hmarks : ∃ marks : List Mark, trail = marks ++ before.trail
      ∧ ∀ mark ∈ marks, mark.isOpened = false := by
    rcases Trail.bindSelection_ok hbind with ⟨-, rfl⟩ | ⟨aliasName, -, rfl⟩
    · exact ⟨[], rfl, fun _ h => by cases h⟩
    · refine ⟨[_], rfl, fun mark hmark => ?_⟩
      rw [List.mem_singleton.mp hmark]
      rfl
  have helements : trail.elements = before.trail.elements := by
    rcases Trail.bindSelection_ok hbind with ⟨-, rfl⟩ | ⟨aliasName, -, rfl⟩ <;> rfl
  have hframes : trail.frames = before.trail.frames := by
    rcases Trail.bindSelection_ok hbind with ⟨-, rfl⟩ | ⟨aliasName, -, rfl⟩ <;> rfl
  have hsound : Sound schema clean { before with trail } :=
    h.relevel { h.levelled with
      bound := by rw [helements]; exact h.bound
      framed := by rw [hframes]; exact h.framed }
  exact ⟨hsound, Nat.le_refl _, fun _ h => h, Levels.Grow.refl _, hmarks, rfl, fun uid => by simp⟩

/-! ## Levels -/

theorem Sound.openLevel (h : before.Sound schema clean) :
    before.openLevel.Sound schema clean :=
  h.relevel {
    bound := h.bound
    fit := ⟨fun _ hspace => (by cases hspace), h.fit⟩
    placed := h.placed
    framed := ⟨fun _ helement => (by cases helement), h.framed⟩
    distinct := fun hclean => List.forall_mem_cons.mpr ⟨List.nodup_nil, h.distinct hclean⟩
    joined := h.joined
    secluded := ⟨fun _ hspace => (by cases hspace), h.secluded⟩
    trailing := h.trailing }

namespace Extends

variable {inner : Context} {bound : List FromElement}

/-- What was bound in a level is forgotten with it. -/
theorem leaveLevel_trail (h : before.openLevel.Extends schema clean bound inner) :
    inner.leaveLevel.trail = before.trail := by
  obtain ⟨marks, htrail, hmarks⟩ := h.marks
  change inner.trail.leave = before.trail
  rw [htrail]
  exact Trail.leave_append before.trail hmarks

/-- The level that was opened is the innermost one, and the outer levels have grown. -/
theorem leaveLevel_cons (h : before.openLevel.Extends schema clean bound inner) :
    ∃ clause, inner.levels = clause :: inner.leaveLevel.levels
      ∧ before.levels.Grow inner.leaveLevel.levels := by
  have hlevels : inner.leaveLevel.levels = inner.levels.tail := rfl
  have hgrow : Levels.Grow ([] :: before.levels) inner.levels := h.grow
  cases hopen : inner.levels with
  | nil =>
    rw [hopen] at hgrow
    cases hgrow
  | cons clause below =>
    rw [hlevels, hopen]
    rw [hopen] at hgrow
    cases hgrow with
    | cons _ hrest => exact ⟨clause, rfl, hrest⟩

theorem leaveLevel_framed (h : before.openLevel.Extends schema clean bound inner) :
    inner.leaveLevel.levels.Framed inner.leaveLevel.trail.frames := by
  obtain ⟨clause, hopen, -⟩ := h.leaveLevel_cons
  obtain ⟨marks, htrail, hmarks⟩ := h.marks
  have hframed := h.sound.framed
  rw [hopen, htrail] at hframed
  rw [h.leaveLevel_trail, ← Trail.frames_append before.trail hmarks]
  change Levels.Framed (clause :: _) (Trail.frames (marks ++ .opened :: before.trail)) at hframed
  cases hcases : Trail.frames (marks ++ .opened :: before.trail) with
  | nil => exact absurd hcases (Trail.frames_ne_nil _)
  | cons frame outer =>
    rw [hcases] at hframed
    exact hframed.2

theorem leaveLevel_sound (h : before.openLevel.Extends schema clean bound inner)
    (hsound : before.Sound schema clean) : inner.leaveLevel.Sound schema clean := by
  obtain ⟨clause, hopen, hgrow⟩ := h.leaveLevel_cons
  have hinner := h.sound.levelled
  have hfit := hinner.fit
  have hplaced := hinner.placed
  have hsecluded := hinner.secluded
  rw [hopen] at hfit hsecluded
  rw [hopen, Levels.elements_cons, List.map_append] at hplaced
  refine h.sound.relevel ⟨?bound, hfit.2, (List.nodup_append.mp hplaced).2.1, h.leaveLevel_framed,
    ?distinct, ?joined, hsecluded.2, ?trailing⟩
  case bound =>
    change ∀ element ∈ inner.leaveLevel.trail.elements, inner.leaveLevel.Reaches element
    rw [h.leaveLevel_trail]
    intro other hother
    obtain ⟨hregistered, hwithin⟩ := hsound.bound other hother
    exact ⟨h.registered hregistered, hwithin.mono hgrow.elements⟩
  case distinct =>
    intro hclean other hother
    exact hinner.distinct hclean other (by rw [hopen]; exact List.mem_cons_of_mem _ hother)
  case joined =>
    intro known hknown source hsource join hjoin hsourceUid hjoinUid other hother
    refine hinner.joined known hknown source hsource join hjoin hsourceUid hjoinUid other ?_
    rw [hopen]
    exact List.mem_append_right _ hother
  case trailing =>
    intro space hspace
    refine hinner.trailing space ?_
    rw [hopen]
    exact List.mem_append_right _ hspace

variable {spaces : List Resolved.Space}

theorem leaveLevel_roots (h : before.openLevel.Extends schema clean bound inner) :
    inner.leaveLevel.levels.roots = before.levels.roots := by
  obtain ⟨clause, hopen, -⟩ := h.leaveLevel_cons
  have hroots := h.outerRoots
  rw [hopen] at hroots
  exact hroots

/-- What the spaces of the level bound is now bound by the finished spaces. -/
theorem leaveLevel_accounts (h : before.openLevel.Extends schema clean bound inner)
    (hclose : Levels.close (inner.levels.headD []) = .ok spaces) :
    before.Accounts inner.leaveLevel (spacesBound spaces ++ bound) := by
  obtain ⟨clause, hopen, -⟩ := h.leaveLevel_cons
  intro uid
  have haccounts := h.accounts uid
  rw [hopen] at haccounts hclose
  have hbound : spacesBound spaces = clause.flatMap OpenSpace.boundElements :=
    Levels.close_bound hclose
  have hclauses : Levels.boundElements (clause :: inner.leaveLevel.levels)
      = spacesBound spaces ++ inner.leaveLevel.levels.boundElements := by
    rw [hbound]
    rfl
  rw [hclauses, List.map_append, List.count_append] at haccounts
  rw [List.map_append, List.count_append]
  change _ ≤ (before.levels.boundElements.map FromElement.uid).count uid
    + if before.nextUid ≤ uid ∧ uid < inner.nextUid then 1 else 0 at haccounts
  change _ ≤ (before.levels.boundElements.map FromElement.uid).count uid
    + if before.nextUid ≤ uid ∧ uid < inner.nextUid then 1 else 0
  omega

theorem leaveLevel_advances (h : before.openLevel.Extends schema clean bound inner)
    (hsound : before.Sound schema clean)
    (hclose : Levels.close (inner.levels.headD []) = .ok spaces) :
    before.Advances schema clean (spacesBound spaces ++ bound) inner.leaveLevel where
  sound := h.leaveLevel_sound hsound
  uids := h.uids
  registered := h.registered
  grow := by
    obtain ⟨_, -, hgrow⟩ := h.leaveLevel_cons
    exact hgrow
  marks := ⟨[], h.leaveLevel_trail, fun _ h => by cases h⟩
  outerRoots := congrArg List.tail h.leaveLevel_roots
  accounts := h.leaveLevel_accounts hclose
  elementMarks := ⟨[], h.leaveLevel_trail, fun _ h => by cases h⟩
  roots := h.leaveLevel_roots

/-- Leaving a level gives its spaces back finished, and leaves the outer levels as they have grown
meanwhile. -/
theorem leaveLevel (hsound : before.Sound schema clean)
    (h : before.openLevel.Extends schema clean bound inner)
    (hclose : Levels.close (inner.levels.headD []) = .ok spaces) :
    before.Advances schema clean (spacesBound spaces ++ bound) inner.leaveLevel
      ∧ inner.scope = Resolved.spaceElements spaces ++ inner.leaveLevel.scope
      ∧ Resolved.spacesHold (inner.rules schema clean) inner.scope spaces
      ∧ (clean → ((Resolved.spaceElements spaces).map FromElement.aliasName).Nodup)
      ∧ (∀ select : Resolved.Select, select.spaces = spaces → select.Secluded)
      ∧ ∀ space ∈ spaces, FromElement.Trailing space.elements := by
  have hadvances := h.leaveLevel_advances hsound hclose
  obtain ⟨clause, hopen, -⟩ := h.leaveLevel_cons
  have hinner := h.sound.levelled
  have hfit := hinner.fit
  have hplaced := hinner.placed
  have hsecluded := hinner.secluded
  rw [hopen] at hfit hplaced hsecluded hclose
  refine ⟨hadvances, ?scope, ?holds, ?distinct, ?secluded, ?trailing⟩
  case scope =>
    rw [Context.scope, hopen, Levels.elements_cons, Levels.close_elements hclose]
    rfl
  case holds =>
    refine Levels.close_holds hclose fun space hspace => ?_
    rw [Context.scope, hopen]
    exact hfit.1 space hspace
  case distinct =>
    intro hclean
    rw [Levels.close_elements hclose]
    exact hinner.distinct hclean _ (by rw [hopen]; exact List.mem_cons_self)
  case secluded =>
    exact fun select hselect => Levels.close_secluded hclose hsecluded hplaced hselect
  case trailing =>
    intro space hspace
    have hclause : clause = spaces.map fun space => .rooted space.root space.joins :=
      Levels.close_spaces hclose
    have hmem : OpenSpace.rooted space.root space.joins ∈ inner.levels.flatten := by
      rw [hopen, List.flatten_cons, hclause]
      exact List.mem_append_left _ (List.mem_map_of_mem hspace)
    exact hinner.trailing _ hmem

end Extends
end Context
end EntityQuery.Interpretation

import EntityQuery.Proofs.BuiltQueries
import EntityQuery.Proofs.RenderedPaths
import EntityQuery.Proofs.Spreading

/-!
# What from clauses are rendered as

The root of a space renders the root that was written, and every written join is rendered by a join
that stands where it was put, however many joins paths add around it. What an open space renders is
therefore rendered by it as long as it is open.

* `Step.checkVariable_audit`, `Step.root_audit`: what the strict language says of variables and
  roots.
* `Step.target_audit`: a join that is written with a target of its own.
* `Phrase.Space.renders_spread`: a finished space renders the same with more implicit joins.
-/

namespace EntityQuery

open Interpretation in
/-- Implicit joins that are added to a space do not change what it renders. -/
theorem Phrase.Space.renders_spread {schema : Schema} {maps nested : Bool} {written : Phrase.Space}
    {space after : Resolved.Space} (h : SpaceSpreads space after) :
    written.Renders schema maps nested after ↔ written.Renders schema maps nested space := by
  obtain ⟨more, rfl, hmore⟩ := h
  cases written with
  | mk root joins =>
    cases space with
    | mk element joined =>
      have hfilter : (joined ++ more).filter Resolved.Join.isExplicit
          = joined.filter Resolved.Join.isExplicit := by
        rw [List.filter_append, hmore.filter_isExplicit, List.append_nil]
      simp only [Phrase.Space.Renders, Resolved.Space.root, Resolved.Space.joins,
        Resolved.Space.mk.injEq]
      constructor
      · rintro ⟨_, _, ⟨rfl, rfl⟩, hroot, hjoins, hbare⟩
        rw [hfilter] at hjoins
        exact ⟨_, _, ⟨rfl, rfl⟩, hroot, hjoins,
          fun join hjoin => hbare join (List.mem_append_left _ hjoin)⟩
      · rintro ⟨_, _, ⟨rfl, rfl⟩, hroot, hjoins, hbare⟩
        rw [← hfilter] at hjoins
        refine ⟨_, _, ⟨rfl, rfl⟩, hroot, hjoins, fun join hjoin himplicit => ?_⟩
        rcases List.mem_append.mp hjoin with hjoin | hjoin
        · exact hbare join hjoin himplicit
        · exact (hmore join hjoin).2

namespace Interpretation.Step

open Resolved (Join)

variable {schema : Schema} {before : Context}

/-- Paths only spread joins under a lenient schema. -/
abbrev lenientSpread (schema : Schema) :
    Motion (schema.withStrict false) (fun _ => True) SpreadsAcross SpreadsBelow :=
  spreadMotion (schema.withStrict false) fun _ => True

/-- The step of an expression renders it. -/
abbrev RendersExpression (schema : Schema) (before : Context) (written : Phrase.Expression) :
    Prop :=
  Rendering (written.Meets (Phrase.compliance schema)) (fun maps => written.Renders schema maps)
    schema before (expression written)

/-- The step of a predicate renders it. -/
abbrev RendersPredicate (schema : Schema) (before : Context) (written : Phrase.Predicate) : Prop :=
  Rendering (written.Meets (Phrase.compliance schema)) (fun maps => written.Renders schema maps)
    schema before (predicate written)

/-! ## Variables and roots -/

theorem entity_audit (name : DottedName) :
    Audit schema before (entity name) fun fine entity after =>
      fine = True ∧ before = after ∧ schema.entity? name.text = some entity :=
  audit_free (entity_stays name) <| ends_entity fun _ hentity => ⟨rfl, rfl, hentity⟩

theorem checkVariable_audit (alias? : Option String) :
    Audit schema before (checkVariable alias?) fun fine _ after =>
      (fine ↔ Phrase.NotReserved alias?) ∧ before = after := by
  unfold checkVariable
  split
  · rename_i aliasName
    refine audit_comply ⟨?_, rfl⟩
    simp [Phrase.NotReserved]
  · exact audit_pure ⟨by simp [Phrase.NotReserved], rfl⟩

/-- The root of a space renders the root that was written. Only the outermost query may have one
that the strict language rejects for its entity. -/
theorem root_audit (hsound : before.Sound (schema.withStrict false) False) {id : SpaceId}
    (hid : id.level + 1 = before.levels.length) (written : Phrase.Root) {nested : Bool}
    (hnested : nested = true → 0 < id.level) :
    Audit schema before (root id written) fun fine element after =>
      (fine ↔ Phrase.CompliantRoot schema written) ∧ written.Renders schema nested element
        ∧ before.Extends (schema.withStrict false) False [] after
        ∧ ∃ place, before.levels = Place.fill place .vacant ∧ place.id = id
          ∧ after.levels = place.fill (.rooted element []) := by
  have hcore : Audit schema before (root id written) fun fine _ _ =>
      (fine ↔ Phrase.CompliantRoot schema written) ∧ (0 < id.level → ∀ entity,
        schema.entity? written.entity.text = some entity → entity.isPolymorphic = false) := by
    unfold root
    refine audit_bind (entity_audit written.entity) ?_
    rintro _ entity between - ⟨rfl, rfl, hentity⟩
    have hmake : Audit schema before (do
        checkVariable written.alias?
        makeRoot id entity written.alias?) fun fine _ _ =>
          (fine ↔ Phrase.NotReserved written.alias?) := by
      refine audit_bind (checkVariable_audit written.alias?) ?_
      rintro fine _ between - ⟨hfine, rfl⟩
      refine audit_free (makeRoot_moves (anyMotion schema) hid entity written.alias?) ?_
      exact fun _ _ _ => by simpa using hfine
    dsimp only
    split
    · rename_i hpolymorphic
      refine audit_bind (audit_comply (Q := fun fine _ last => fine = (true = false)
        ∧ before = last) ⟨rfl, rfl⟩) ?_
      rintro _ _ last - ⟨rfl, rfl⟩
      split
      · exact audit_throw_bind _ _
      · rename_i hlevel
        refine audit_mono hmake fun fine _ _ _ => ⟨?_, fun h => (hlevel h).elim⟩
        simp [Phrase.CompliantRoot, hentity, hpolymorphic]
    · rename_i hmapped
      refine audit_mono hmake fun fine _ _ hfine => ⟨?_, fun _ other hother => ?_⟩
      · simp [Phrase.CompliantRoot, hentity, hmapped, hfine]
      · rw [hentity] at hother
        cases hother
        simpa using hmapped
  refine audit_mono (audit_with hcore (root_ends hsound hid fun h => h.elim)) ?_
  rintro fine element after ⟨⟨hfine, hmapped⟩, hextends, -, -, ⟨binding, rfl⟩,
    ⟨entity, hentity, htype⟩, hplace⟩
  refine ⟨hfine, ⟨binding, entity, rfl, hentity, htype, fun h => ?_⟩, hextends, hplace⟩
  exact hmapped (hnested h) entity hentity

/-! ## Written joins -/

/-- A written join leaves a state to go on from, and it is found in the space that was opened
last. -/
def JoinRendering (written : Phrase.Join) (schema : Schema) (before : Context)
    (step : Step Unit) : Prop :=
  Audit schema before step fun fine _ after =>
    ∃ node, before.levels.Gains node after.levels
      ∧ Rendered (written.Meets (Phrase.compliance schema))
        (fun maps => written.Renders schema maps node) fine

theorem cross_renders {id : SpaceId} (hlast : before.levels.Last id) (written : Phrase.Root) :
    JoinRendering (.cross written) schema before (join id (.cross written)) := by
  refine audit_bind (entity_audit written.entity) ?_
  rintro _ entity between - ⟨rfl, rfl, -⟩
  refine audit_bind (checkVariable_audit written.alias?) ?_
  rintro fine _ between - ⟨hfine, rfl⟩
  have hid : id.level + 1 = before.levels.length := hlast.level
  refine audit_bind (audit_free (Q := fun fine element after => fine = True
    ∧ Writes before element after) (crossJoin_moves (anyMotion schema) hid entity written.alias?)
    (ends_mono (crossJoin_writes hlast entity written.alias?) fun _ _ h => ⟨rfl, h⟩)) ?_
  rintro _ element after - ⟨rfl, hwrites⟩
  refine audit_pure ⟨_, hwrites.gains, .of_form (fun _ => ⟨element, rfl, hwrites.element⟩) ?_⟩
  simp [hfine, Phrase.Join.Meets, Phrase.CompliantJoin]

theorem member_renders {id : SpaceId} (hlast : before.levels.Last id) (path : DottedName)
    (alias? : Option String) :
    JoinRendering (.collection path alias?) schema before (join id (.collection path alias?)) := by
  refine audit_bind (checkVariable_audit alias?) ?_
  rintro fine _ between - ⟨hfine, rfl⟩
  have hspreads : Moves (schema.withStrict false) True SpreadsAcross before (checkMember path) :=
    checkMember_moves (lenientSpread schema) path
  refine audit_bind (audit_free (Q := fun fine _ after => fine = True
    ∧ before.levels.Spreads after.levels) (checkMember_moves (anyMotion schema) path)
    (ends_mono hspreads.ends fun _ _ h => ⟨rfl, h⟩)) ?_
  rintro _ _ between - ⟨rfl, hspreads⟩
  obtain ⟨more, hgrows, hmore⟩ := hspreads.grows hlast
  have hbetween := hgrows.last hlast
  have hexplicit : Moves schema True SameDepth between
      (explicitJoin id path alias? none .inner false) :=
    explicitJoin_moves (anyMotion schema) hbetween.level path alias? (fun _ h => by cases h) _ _
  refine audit_bind (audit_free (Q := fun fine element after => fine = True
    ∧ Writes between element after) hexplicit
    (ends_mono (explicitJoin_writes hbetween path alias? none .inner false)
      fun _ _ h => ⟨rfl, h⟩)) ?_
  rintro _ element after - ⟨rfl, hwrites⟩
  obtain ⟨front, rest, hlater, hfront, hrest, hwritten⟩ := hwrites.gains
  refine audit_pure ⟨.mk element none, ⟨more ++ front, rest, ?_, hmore.append hfront, hrest,
    hwritten⟩, .of_form (fun _ => ⟨element, rfl, hwrites.element⟩) ?_⟩
  · rw [List.append_assoc]
    exact hgrows.trans hlater
  · simp [hfine, Phrase.Join.Meets, Phrase.CompliantJoin]

/-- The element of a join with a target of its own. -/
theorem target_audit {id : SpaceId} (hlast : before.levels.Last id)
    (hsound : before.Sound (schema.withStrict false) False) (target : Phrase.JoinTarget)
    (alias? : Option String) (joinType : JoinType) (fetched : Bool) :
    Audit schema before (joinTarget id target alias? joinType fetched) fun fine element after =>
      fine = True ∧ Writes before element after ∧ after.Sound (schema.withStrict false) False := by
  have htarget : target.Meets (treating fun _ => True) := target.meets treating_always
  refine audit_free (joinTarget_moves (anyMotion schema) hlast.level htarget alias? joinType
    fetched) ?_
  refine ends_mono (ends_and (joinTarget_writes hlast target alias? joinType fetched)
    (joinTarget_finds hsound hlast.level target (fun h => h.elim) joinType fetched)) ?_
  exact fun element after h => ⟨rfl, h.1, h.2.1.sound⟩

/-- A predicate under a resolver of its own. -/
theorem restriction_audit (hready : before.Ready schema) (resolver : Resolver)
    {written : Phrase.Predicate} (hwritten : ∀ {between : Context}, between.Ready schema →
      Rendering (written.Meets (Phrase.compliance schema))
        (fun maps => written.Renders schema maps) schema between (predicate written)) :
    Audit schema before (under resolver (predicate written)) fun fine value after =>
      after.Sound (schema.withStrict false) False ∧ before.levels.Spreads after.levels
        ∧ Rendered (written.Meets (Phrase.compliance schema))
          (fun maps => written.Renders schema maps value) fine := by
  have hpush : before.Advances (schema.withStrict false) False [] (before.pushResolver resolver) :=
    hready.sound.idle _ before.style? before.advisories
  have hspreads : Moves (schema.withStrict false) False SpreadsAcross before
      (under resolver (predicate written)) :=
    under_moves (lenientSpread schema) resolver
      (predicate_moves (lenientSpread schema) written (written.meets treating_always))
  have haudit : Audit schema before (under resolver (predicate written)) fun fine value after =>
      after.Sound (schema.withStrict false) False
        ∧ Rendered (written.Meets (Phrase.compliance schema))
          (fun maps => written.Renders schema maps value) fine := by
    refine audit_under (audit_mono (hwritten ⟨hpush.sound, hready.inside⟩) ?_)
    rintro fine value after ⟨hafter, hvalue⟩
    exact ⟨(hafter.sound.idle _ after.style? after.advisories).sound, hvalue⟩
  refine audit_mono (audit_with haudit hspreads.ends) ?_
  exact fun fine value after h => ⟨h.1.1, h.2, h.1.2⟩

theorem qualified_renders {id : SpaceId} (hlast : before.levels.Last id)
    (hsound : before.Sound (schema.withStrict false) False) (type : JoinType) (fetch : Bool)
    (target : Phrase.JoinTarget) (alias? : Option String) (condition : Option Phrase.Predicate)
    (hcondition : ∀ written, condition = some written → ∀ {between : Context},
      between.Ready schema →
      Rendering (written.Meets (Phrase.compliance schema))
        (fun maps => written.Renders schema maps) schema between (predicate written)) :
    JoinRendering (.qualified type fetch target alias? condition) schema before
      (join id (.qualified type fetch target alias? condition)) := by
  rw [join]
  refine audit_bind (checkVariable_audit alias?) ?_
  rintro fine _ between - ⟨hfine, rfl⟩
  refine audit_bind (audit_comply (Q := fun fine _ last =>
    fine = ((fetch && alias?.isSome) = false) ∧ before = last) ⟨rfl, rfl⟩) ?_
  rintro _ _ last - ⟨rfl, rfl⟩
  refine audit_bind (target_audit hlast hsound target alias? type fetch) ?_
  rintro _ element first - ⟨rfl, hwrites, hfirst⟩
  have htarget : target.Meets (Phrase.compliance schema) := by
    cases target with
    | plain path => trivial
    | treated path entity => trivial
  have hjoin : fine ∧ (fetch && alias?.isSome) = false
      ↔ Phrase.CompliantJoin (.qualified type fetch target alias? condition) := by
    cases fetch <;> cases alias? <;> simp [hfine, Phrase.CompliantJoin]
  cases condition with
  | none =>
    refine audit_pure
      ⟨_, hwrites.gains, .of_form (fun _ => ⟨element, none, rfl, hwrites.element, rfl⟩) ?_⟩
    simpa [Phrase.Join.Meets, Phrase.restrictionMeets, htarget] using hjoin
  | some written =>
    obtain ⟨front, rest, hgrows, hfront, hrest, hwritten⟩ := hwrites.gains
    have hready : first.Ready schema := ⟨hfirst, (hgrows.last hlast).ne_nil⟩
    refine audit_bind (restriction_audit hready (.joinRestriction id)
      (hcondition written rfl)) ?_
    rintro fine' condition second - ⟨hsecond, hspreads, hvalue⟩
    obtain ⟨more, hlater, hmore⟩ := hspreads.grows (hgrows.last hlast)
    have hall :
        before.levels.Grows (front ++ .mk element none :: (rest ++ more)) second.levels := by
      simpa using hgrows.trans hlater
    have hid : id.level + 1 = second.levels.length := (hall.last hlast).level
    refine audit_free
      (updateSpace_fills (anyMotion schema) hid fun _ _ hfault => by cases hfault) ?_
    refine ends_updateSpace fun levels hupdate => ?_
    have hrestricted := restrict_grows hlast hall hsecond.placed hupdate
    refine ⟨.mk element (some condition), ⟨front, rest ++ more, hrestricted, hfront,
      hrest.append hmore, hwritten⟩, ?_⟩
    have hhead : Rendered
        (Phrase.CompliantJoin (.qualified type fetch target alias? (some written)))
        (fun _ => True) (fine ∧ (fetch && alias?.isSome) = false) :=
      .of_form (fun _ => trivial) hjoin
    refine (hhead.and hvalue Iff.rfl fun _ => Iff.rfl).imp ?_ (fun maps => ?_) ?_
    · simp [Phrase.Join.Meets, Phrase.restrictionMeets, htarget]
    · simp [Phrase.Join.Renders, Phrase.restrictionRenders, hwrites.element]
    · simp [and_assoc]

/-! ## Spaces -/

/-- Joins that were not written have no restriction. -/
def BareImplicit (joins : List Join) : Prop :=
  ∀ join ∈ joins, join.isExplicit = false → join.restriction = none

/-- Written joins leave a state to go on from, and they are found in the space that was opened
last, in their order. -/
def JoinsRendering (written : List Phrase.Join) (schema : Schema) (before : Context)
    (step : Step Unit) : Prop :=
  Audit schema before step fun fine _ after =>
    ∃ more, before.levels.Grows more after.levels ∧ BareImplicit more
      ∧ Rendered (Phrase.joinsMeet (Phrase.compliance schema) written)
        (fun maps => Phrase.joinsRender schema maps written (more.filter Join.isExplicit)) fine

theorem joins_render_nil {id : SpaceId} (hlast : before.levels.Last id) :
    JoinsRendering [] schema before (joins id []) :=
  audit_pure ⟨[], Levels.grows_nil hlast, (fun _ h => by cases h),
    .of_form (fun _ => rfl) (by simp [Phrase.joinsMeet])⟩

theorem joins_render_cons {id : SpaceId} {first : Phrase.Join} {rest : List Phrase.Join}
    (hready : before.Ready schema) (hlast : before.levels.Last id)
    (hfirst : JoinRendering first schema before (join id first))
    (hrest : ∀ {between : Context}, between.Ready schema → between.levels.Last id →
      JoinsRendering rest schema between (joins id rest)) :
    JoinsRendering (first :: rest) schema before (joins id (first :: rest)) := by
  have hends := join_ends first (fun h => h.elim) hready.sound hlast.level
  refine audit_bind (audit_with hfirst hends) ?_
  rintro fine _ between - ⟨⟨node, ⟨front, back, hgrows, hfront, hback, hwritten⟩, hnode⟩, hadvances⟩
  refine audit_mono (hrest (hadvances.ready hready) (hgrows.last hlast)) ?_
  rintro fine' _ after ⟨more, hlater, hbare, hmore⟩
  refine ⟨(front ++ node :: back) ++ more, hgrows.trans hlater, ?_, ?_⟩
  · intro join hjoin himplicit
    simp only [List.append_assoc, List.mem_append, List.cons_append, List.mem_cons] at hjoin
    rcases hjoin with hjoin | rfl | hjoin | hjoin
    · exact (hfront join hjoin).2
    · simp [hwritten] at himplicit
    · exact (hback join hjoin).2
    · exact hbare join hjoin himplicit
  · have hfilter : ((front ++ node :: back) ++ more).filter Join.isExplicit
        = node :: more.filter Join.isExplicit := by
      simp [List.filter_append, hfront.filter_isExplicit, hback.filter_isExplicit,
        hwritten]
    refine hnode.and hmore Iff.rfl fun maps => ?_
    rw [hfilter]
    simp [Phrase.joinsRender]

/-- A space that was written is found in the innermost from clause. -/
def SpacesRendering (nested : Bool) (written : List Phrase.Space) (schema : Schema)
    (before : Context) (step : Step Unit) : Prop :=
  Audit schema before step fun fine _ after =>
    ∃ nodes, before.levels.Appends nodes after.levels
      ∧ Rendered (Phrase.spacesMeet (Phrase.compliance schema) written)
        (fun maps => Phrase.spacesRender schema maps nested written nodes) fine

/-- A space is opened at the end of the innermost from clause. -/
theorem openSpace_audit (hready : before.Ready schema) :
    Audit schema before openSpace fun fine id after =>
      fine = True ∧ after.Ready schema ∧ ∃ opened below, before.levels = opened :: below
        ∧ after.levels = (opened ++ [.vacant]) :: below ∧ id = ⟨below.length, opened.length⟩ := by
  refine audit_free (openSpace_moves (anyMotion schema)) (ends_openSpace fun id levels hopen => ?_)
  obtain ⟨hextends, opened, below, hlevels, rfl, rfl⟩ := hready.sound.opensSpace hopen
  exact ⟨rfl, hextends.ready hready, opened, below, hlevels, rfl, rfl⟩

/-- The space that was opened last gets its root. -/
theorem openedRoot_audit (hready : before.Ready schema) {opened : List OpenSpace} {below : Levels}
    (hopened : before.levels = (opened ++ [.vacant]) :: below) (written : Phrase.Root)
    {nested : Bool} (hnested : nested = true → 0 < below.length) :
    Audit schema before (root ⟨below.length, opened.length⟩ written) fun fine element after =>
      (fine ↔ Phrase.CompliantRoot schema written) ∧ written.Renders schema nested element
        ∧ after.Ready schema ∧ after.levels = (opened ++ [.rooted element []]) :: below := by
  refine audit_mono (root_audit hready.sound (by rw [hopened]; rfl) written hnested) ?_
  rintro fine element after ⟨hfine, hroot, hextends, place, hvacant, hplace, hfilled⟩
  have hfill : (⟨[], opened, [], below⟩ : Place).fill .vacant = place.fill .vacant := by
    rw [← hvacant, hopened]
    rfl
  obtain ⟨rfl, -⟩ := Place.fill_inj hfill hplace.symm
  exact ⟨hfine, hroot, hextends.ready hready, hfilled⟩

/-- A space is opened, gets its root and then its joins. -/
theorem space_renders {written : Phrase.Root} {hanging : List Phrase.Join} {nested : Bool}
    (hready : before.Ready schema) (hnested : nested = true → 1 < before.levels.length)
    (hjoins : ∀ id {between : Context}, between.Ready schema → between.levels.Last id →
      JoinsRendering hanging schema between (joins id hanging)) :
    Audit schema before (space (.mk written hanging)) fun fine _ after =>
      ∃ node, before.levels.Appends [node] after.levels
        ∧ Rendered ((Phrase.Space.mk written hanging).Meets (Phrase.compliance schema))
          (fun maps => (Phrase.Space.mk written hanging).Renders schema maps nested node) fine := by
  refine audit_bind (openSpace_audit hready) ?_
  rintro _ id first - ⟨rfl, hfirst, opened, below, hlevels, hopened, rfl⟩
  have hlevel : nested = true → 0 < below.length := by
    intro h
    have hdepth := hnested h
    rw [hlevels, List.length_cons] at hdepth
    exact Nat.lt_of_succ_lt_succ hdepth
  refine audit_bind (openedRoot_audit hfirst hopened written hlevel) ?_
  rintro fine element second - ⟨hfine, hroot, hsecond, hrooted⟩
  have hlast : second.levels.Last ⟨below.length, opened.length⟩ :=
    ⟨opened, element, [], below, hrooted, rfl⟩
  refine audit_mono (hjoins _ hsecond hlast) ?_
  rintro fine' _ after ⟨more, hgrows, hbare, hmore⟩
  obtain ⟨spaces, spaces', other, others, rest, rest', hgrown, hafter, hspaces, hrest⟩ := hgrows
  rw [hrooted] at hgrown
  obtain ⟨hclause, rfl⟩ := List.cons.inj hgrown
  obtain ⟨rfl, hspace⟩ := List.append_inj' hclause rfl
  cases hspace
  refine ⟨.mk element more, ⟨opened, spaces', below, rest', hlevels, hafter, hspaces, hrest⟩, ?_⟩
  have hhead : Rendered (Phrase.CompliantRoot schema written)
      (fun _ => written.Renders schema nested element) fine :=
    .of_form (fun _ => hroot) hfine
  refine (hhead.and hmore Iff.rfl fun _ => Iff.rfl).imp Iff.rfl (fun maps => ?_) (by simp)
  simp only [Phrase.Space.Renders, Resolved.Space.mk.injEq]
  constructor
  · rintro ⟨_, _, ⟨rfl, rfl⟩, h, hrendered, -⟩
    exact ⟨h, hrendered⟩
  · rintro ⟨h, hrendered⟩
    exact ⟨_, _, ⟨rfl, rfl⟩, h, hrendered, hbare⟩

theorem spacesRender_spread {maps nested : Bool} {written : List Phrase.Space}
    {spaces after : List Resolved.Space} (h : List.Forall₂ SpaceSpreads spaces after) :
    Phrase.spacesRender schema maps nested written after
      ↔ Phrase.spacesRender schema maps nested written spaces := by
  induction h generalizing written with
  | nil => exact Iff.rfl
  | @cons space spread spaces after hfirst _ ih =>
    cases written with
    | nil => simp [Phrase.spacesRender]
    | cons first rest =>
      simp only [Phrase.spacesRender, List.cons.injEq]
      constructor
      · rintro ⟨_, _, ⟨rfl, rfl⟩, hnode, hothers⟩
        exact ⟨_, _, ⟨rfl, rfl⟩, (Phrase.Space.renders_spread hfirst).mp hnode, ih.mp hothers⟩
      · rintro ⟨_, _, ⟨rfl, rfl⟩, hnode, hothers⟩
        exact ⟨_, _, ⟨rfl, rfl⟩, (Phrase.Space.renders_spread hfirst).mpr hnode, ih.mpr hothers⟩

theorem spaces_render_nil {nested : Bool} (hready : before.Ready schema) :
    SpacesRendering nested [] schema before (spaces []) :=
  audit_pure ⟨[], Levels.appends_nil hready.inside,
    .of_form (fun _ => rfl) (by simp [Phrase.spacesMeet])⟩

theorem spaces_render_cons {nested : Bool} {first : Phrase.Space} {rest : List Phrase.Space}
    (hready : before.Ready schema)
    (hfirst : Audit schema before (space first) fun fine _ after =>
      ∃ node, before.levels.Appends [node] after.levels
        ∧ Rendered (first.Meets (Phrase.compliance schema))
          (fun maps => first.Renders schema maps nested node) fine)
    (hrest : ∀ {between : Context}, between.Ready schema →
      between.levels.length = before.levels.length →
      SpacesRendering nested rest schema between (spaces rest)) :
    SpacesRendering nested (first :: rest) schema before (spaces (first :: rest)) := by
  refine audit_bind (audit_with hfirst (space_ends first (fun h => h.elim) hready.sound)) ?_
  rintro fine _ between - ⟨⟨node, happends, hnode⟩, hextends, -⟩
  have hlength := hextends.grow.length_eq
  refine audit_mono (hrest (hextends.ready hready) hlength.symm) ?_
  rintro fine' _ after ⟨nodes, hlater, hnodes⟩
  obtain ⟨spread, hall, hspread⟩ := happends.trans hlater
  obtain ⟨node', others, hfirstSpread, hnil, rfl⟩ := List.forall₂_cons_left_iff.mp hspread
  cases hnil
  refine ⟨node' :: nodes, hall, hnode.and hnodes Iff.rfl fun maps => ?_⟩
  rw [← Phrase.Space.renders_spread hfirstSpread]
  simp [Phrase.spacesRender]

end Interpretation.Step
end EntityQuery

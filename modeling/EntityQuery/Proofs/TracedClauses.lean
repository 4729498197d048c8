import EntityQuery.Proofs.BuiltQueries
import EntityQuery.Proofs.Spreading
import EntityQuery.Proofs.TracedPaths

/-!
# What from clauses are traced to

A from clause binds its roots and its written joins one after the other, so that each restriction
sees the elements that were written before it. The implicit joins that paths add around them are
not seen.

* `Context.Declares`: one more element is bound in the current scope.
* `Step.root_declares`, `Step.attaches_places`: roots and written joins.
* `Step.JoinTracing`, `Step.JoinsTracing`, `Step.SpacesTracing`: joins and spaces whose paths are
  traced.
-/

namespace EntityQuery

namespace Interpretation

open Resolved (Join)

/-! ## Written elements of spaces -/

theorem Unwritten.seen {joins : List Join} (h : Unwritten joins) (visible : List FromElement) :
    (joins.map Join.element).foldl FromElement.seen visible = visible := by
  induction joins with
  | nil => rfl
  | cons first rest ih =>
    obtain ⟨hfirst, hrest⟩ := List.forall_mem_cons.mp h
    have himplicit : first.element.isImplicit = true := by simpa [Join.isExplicit] using hfirst.1
    have hsame : first.element.seen visible = visible := by
      simp [FromElement.seen, FromElement.isDeclared, himplicit]
    rw [List.map_cons, List.foldl_cons, hsame]
    exact ih hrest

/-- Implicit joins that are added to a space are not seen. -/
theorem SpaceSpreads.seen {space after : Resolved.Space} (h : SpaceSpreads space after)
    (visible : List FromElement) : after.seen visible = space.seen visible := by
  obtain ⟨more, rfl, hmore⟩ := h
  have hafter : (Resolved.Space.mk space.root (space.joins ++ more)).elements
      = space.elements ++ more.map Join.element := by
    simp [Resolved.Space.elements, Resolved.Space.root, Resolved.Space.joins]
  rw [Resolved.Space.seen, hafter, List.foldl_append, hmore.seen]
  rfl

theorem seen_spread {spaces after : List Resolved.Space}
    (h : List.Forall₂ SpaceSpreads spaces after) (visible : List FromElement) :
    after.foldl Resolved.Space.seen visible = spaces.foldl Resolved.Space.seen visible := by
  induction h generalizing visible with
  | nil => rfl
  | cons hfirst _ ih => rw [List.foldl_cons, List.foldl_cons, hfirst.seen, ih]

end Interpretation

open Interpretation in
/-- A space is traced in a space with more implicit joins as well. -/
theorem Phrase.Space.traces_spread {visible : List FromElement} {written : Phrase.Space}
    {space after : Resolved.Space} (h : SpaceSpreads space after) :
    written.Traces visible after ↔ written.Traces visible space := by
  obtain ⟨more, rfl, hmore⟩ := h
  cases written with
  | mk root joins =>
    simp only [Phrase.Space.Traces, Resolved.Space.root, Resolved.Space.joins,
      List.filter_append, hmore.filter_isExplicit, List.append_nil]

open Interpretation in
theorem Phrase.spacesTrace_spread {visible : List FromElement} {written : List Phrase.Space}
    {spaces after : List Resolved.Space} (h : List.Forall₂ SpaceSpreads spaces after) :
    Phrase.spacesTrace visible written after ↔ Phrase.spacesTrace visible written spaces := by
  induction h generalizing written visible with
  | nil => exact Iff.rfl
  | @cons space spread spaces after hfirst _ ih =>
    cases written with
    | nil => simp [Phrase.spacesTrace]
    | cons first rest =>
      simp only [Phrase.spacesTrace, List.cons.injEq]
      constructor
      · rintro ⟨_, _, ⟨rfl, rfl⟩, hnode, hothers⟩
        exact ⟨_, _, ⟨rfl, rfl⟩, (Phrase.Space.traces_spread hfirst).mp hnode,
          ih.mp (hfirst.seen visible ▸ hothers)⟩
      · rintro ⟨_, _, ⟨rfl, rfl⟩, hnode, hothers⟩
        exact ⟨_, _, ⟨rfl, rfl⟩, (Phrase.Space.traces_spread hfirst).mpr hnode,
          ih.mpr ((hfirst.seen visible).symm ▸ hothers)⟩

namespace Interpretation

/-! ## Binding elements -/

/-- Resolvers are as before and the element is bound in the current scope, besides elements that
were not written. -/
structure Context.Declares (before : Context) (element : FromElement) (after : Context) : Prop where
  resolvers : after.resolvers = before.resolvers
  declared : after.declared = element.seen before.declared

namespace Context

variable {schema : Schema} {bulk : Bool} {visible : List FromElement}
  {before between after : Context} {element : FromElement}

theorem Declares.of_same (h : between.Declares element after)
    (hsame : before.SameVariables between) : before.Declares element after :=
  ⟨h.resolvers.trans hsame.resolvers, by rw [h.declared, hsame.declared]⟩

theorem Declares.trans_same (h : before.Declares element between)
    (hsame : between.SameVariables after) : before.Declares element after :=
  ⟨hsame.resolvers.trans h.resolvers, hsame.declared.trans h.declared⟩

theorem Stands.declares (hstands : before.Stands schema bulk visible)
    (h : before.Declares element after) (hsound : after.Sound schema False) :
    after.Stands schema bulk (element.seen visible) where
  sound := hsound
  declared := by rw [h.declared, hstands.declared]
  resolver := by
    rw [Context.resolver, h.resolvers]
    exact hstands.resolver

end Context

namespace Step

variable {schema : Schema} {visible : List FromElement} {before : Context}

/-- The written elements across steps, whatever elements are narrowed to. -/
abbrev keepsVariables (schema : Schema) :
    Motion schema (fun _ => True) Context.KeepsVariables (Context.Proceeds Levels.KeepBelow) :=
  variablesMotion schema fun _ => True

theorem attach_declares (id : SpaceId) (element : FromElement) :
    Ends schema before (attach id element) fun _ after => before.Declares element after :=
  ends_place fun _ _ _ _ _ _ _ hbind => ⟨rfl, Context.declared_bind hbind⟩

theorem Attaches.declares {id : SpaceId} {element : FromElement} {after : Context}
    (h : Attaches Context.KeepsVariables schema id before element after) :
    before.Declares element after := by
  obtain ⟨-, between, hkeeps, hrun⟩ := h
  exact (attach_declares id element () after hrun).of_same hkeeps.same

theorem makeRoot_declares (id : SpaceId) (entity : EntityReference) (alias? : Option String) :
    Ends schema before (makeRoot id entity alias?) fun element after =>
      before.Declares element after := by
  have hdraw : Moves schema True Context.KeepsVariables before (newBinding alias? entity.type) :=
    newBinding_moves (keepsVariables schema) alias? entity.type
  refine ends_bind hdraw.ends fun binding drawn hdrawn => ?_
  refine ends_bind (ends_updateSpace (Q := fun _ after => drawn.SameVariables after)
    fun levels _ => ⟨rfl, rfl⟩) fun _ filled hfilled => ?_
  refine ends_bind (ends_registerElement (Q := fun _ after =>
    filled.Declares (.root binding) after) fun trail hbind =>
      ⟨rfl, Context.declared_bind hbind⟩) fun _ after hafter => ?_
  exact ends_pure ((hafter.of_same hfilled).of_same hdrawn.same)

theorem root_declares (id : SpaceId) (written : Phrase.Root) :
    Ends schema before (root id written) fun element after => before.Declares element after := by
  unfold root
  refine ends_bind (ends_entity (Q := fun _ after => before = after) fun _ _ => rfl) ?_
  rintro entity _ rfl
  have hmake : Ends schema before (do
      checkVariable written.alias?
      makeRoot id entity written.alias?) fun element after => before.Declares element after := by
    refine ends_bind (ends_checkVariable (Q := fun _ after => before = after) rfl) ?_
    rintro _ _ rfl
    exact makeRoot_declares id entity written.alias?
  dsimp only
  split
  · refine ends_bind (ends_comply (Q := fun _ after => before = after) rfl) ?_
    rintro _ _ rfl
    split
    · exact ends_throw_bind _ _
    · exact hmake
  · exact hmake

/-! ## Joins -/

/-- The element of a written join is put into the space that was opened last and bound. -/
theorem attaches_places {id : SpaceId} (hlast : before.levels.Last id) {step : Step FromElement}
    (hspreads : Ends schema before step (Attaches SpreadsAcross schema id before))
    (hkeeps : Ends schema before step (Attaches Context.KeepsVariables schema id before)) :
    Ends schema before step fun element after =>
      Writes before element after ∧ before.Declares element after :=
  ends_mono (ends_both hspreads hkeeps) fun _ _ h => ⟨h.1.writes hlast, h.2.declares⟩

/-- The paths of a written join are traced to the elements up to its own one, and the join is found
in the space that was opened last. -/
def JoinTracing (visible : List FromElement) (written : Phrase.Join) (schema : Schema)
    (before : Context) (step : Step Unit) : Prop :=
  Ends schema before step fun _ after => ∃ node, before.levels.Gains node after.levels
    ∧ before.Declares node.element after ∧ written.Traces (node.element.seen visible) node

theorem cross_traces {id : SpaceId} (hlast : before.levels.Last id) (written : Phrase.Root) :
    JoinTracing visible (.cross written) schema before (join id (.cross written)) := by
  refine ends_bind (ends_entity (Q := fun _ after => before = after) fun _ _ => rfl) ?_
  rintro entity _ rfl
  refine ends_bind (ends_checkVariable (Q := fun _ after => before = after) rfl) ?_
  rintro _ _ rfl
  refine ends_bind (attaches_places hlast
    (crossJoin_attaches (spreadMotion schema fun _ => True) entity written.alias?)
    (crossJoin_attaches (keepsVariables schema) entity written.alias?)) ?_
  rintro element after ⟨hwrites, hdeclares⟩
  exact ends_pure ⟨.mk element none, hwrites.gains, hdeclares, trivial⟩

theorem member_traces {id : SpaceId} (hlast : before.levels.Last id) (path : DottedName)
    (alias? : Option String) :
    JoinTracing visible (.collection path alias?) schema before
      (join id (.collection path alias?)) := by
  refine ends_bind (ends_checkVariable (Q := fun _ after => before = after) rfl) ?_
  rintro _ _ rfl
  have hspreads : Moves schema True SpreadsAcross before (checkMember path) :=
    checkMember_moves (spreadMotion schema fun _ => True) path
  have hkeeps : Moves schema True Context.KeepsVariables before (checkMember path) :=
    checkMember_moves (keepsVariables schema) path
  refine ends_bind (ends_both hspreads.ends hkeeps.ends) ?_
  rintro _ between ⟨hspread, hkept⟩
  obtain ⟨more, hgrows, hmore⟩ := Levels.Spreads.grows hspread hlast
  refine ends_bind (attaches_places (hgrows.last hlast)
    (explicitJoin_attaches (spreadMotion schema fun _ => True) path alias? none .inner false)
    (explicitJoin_attaches (keepsVariables schema) path alias? none .inner false)) ?_
  rintro element after ⟨hwrites, hdeclares⟩
  obtain ⟨front, rest, hlater, hfront, hrest, hwritten⟩ := hwrites.gains
  refine ends_pure ⟨.mk element none, ⟨more ++ front, rest, ?_, hmore.append hfront, hrest,
    hwritten⟩, hdeclares.of_same hkept.same, trivial⟩
  rw [List.append_assoc]
  exact hgrows.trans hlater

/-- A predicate under a resolver of its own. -/
theorem under_traces {bulk : Bool} {resolver : Resolver}
    (hstands : before.Stands schema bulk visible) (hresolver : resolver = .bulk → bulk = true)
    {written : Phrase.Predicate} (hwritten : ∀ {between : Context},
      between.Stands schema bulk visible →
      Tracing bulk visible (written.Traces bulk visible) schema between (predicate written)) :
    Ends schema before (under resolver (predicate written)) fun value after =>
      after.Sound schema False ∧ before.SameVariables after ∧ before.levels.Spreads after.levels
        ∧ written.Traces bulk visible value := by
  have hspreads : Moves schema False SpreadsAcross before (under resolver (predicate written)) :=
    under_moves (spreadMotion schema fun _ => True) resolver
      (predicate_moves (spreadMotion schema fun _ => True) written (written.meets treating_always))
  have hkeeps : Moves schema False Context.KeepsVariables before
      (under resolver (predicate written)) :=
    under_moves (keepsVariables schema) resolver
      (predicate_moves (keepsVariables schema) written (written.meets treating_always))
  have htraces : Ends schema before (under resolver (predicate written)) fun value after =>
      after.Sound schema False ∧ written.Traces bulk visible value :=
    ends_under (ends_mono (hwritten (hstands.under hresolver)) fun _ after h =>
      ⟨(h.1.sound.idle _ after.style? after.advisories).sound, h.2⟩)
  refine ends_mono (ends_both htraces (ends_both hspreads.ends hkeeps.ends)) ?_
  exact fun _ _ h => ⟨h.1.1, h.2.2.same, h.2.1, h.1.2⟩

/-- The restriction of a join sees the element of the join. -/
theorem qualified_traces {id : SpaceId} (hlast : before.levels.Last id)
    (hstands : before.Stands schema false visible) (type : JoinType) (fetch : Bool)
    (target : Phrase.JoinTarget) (alias? : Option String) (condition : Option Phrase.Predicate)
    (hcondition : ∀ written, condition = some written → ∀ {between : Context}
      {seen : List FromElement}, between.Stands schema false seen →
      Tracing false seen (written.Traces false seen) schema between (predicate written)) :
    JoinTracing visible (.qualified type fetch target alias? condition) schema before
      (join id (.qualified type fetch target alias? condition)) := by
  rw [join]
  refine ends_bind (ends_checkVariable (Q := fun _ after => before = after) rfl) ?_
  rintro _ _ rfl
  refine ends_bind (ends_comply (Q := fun _ after => before = after) rfl) ?_
  rintro _ _ rfl
  refine ends_bind (ends_both
    (attaches_places hlast
      (joinTarget_attaches (spreadMotion schema fun _ => True) target alias? type fetch)
      (joinTarget_attaches (keepsVariables schema) target alias? type fetch))
    (joinTarget_finds hstands.sound hlast.level target (fun h => h.elim) type fetch)) ?_
  rintro element first ⟨⟨hwrites, hdeclares⟩, hadvances, -⟩
  cases condition with
  | none => exact ends_pure ⟨.mk element none, hwrites.gains, hdeclares, rfl⟩
  | some written =>
    obtain ⟨front, rest, hgrows, hfront, hrest, -⟩ := hwrites.gains
    have hfirst := hstands.declares hdeclares hadvances.sound
    refine ends_bind (under_traces hfirst (fun h => by cases h)
      (hcondition written rfl)) ?_
    rintro condition second ⟨hsecond, hsame, hspreads, htraced⟩
    obtain ⟨more, hlater, hmore⟩ := hspreads.grows (hgrows.last hlast)
    have hall :
        before.levels.Grows (front ++ .mk element none :: (rest ++ more)) second.levels := by
      simpa using hgrows.trans hlater
    refine ends_updateSpace fun levels hupdate => ?_
    have hrestricted := restrict_grows hlast hall hsecond.placed hupdate
    refine ⟨.mk element (some condition), ⟨front, rest ++ more, hrestricted, hfront,
      hrest.append hmore, hwrites.element.isExplicit _⟩, ?_, condition, rfl, htraced⟩
    exact hdeclares.trans_same ⟨hsame.resolvers, hsame.declared⟩

/-! ## Spaces -/

/-- Written joins are found in the space that was opened last, in their order. -/
def JoinsTracing (visible : List FromElement) (written : List Phrase.Join) (schema : Schema)
    (before : Context) (step : Step Unit) : Prop :=
  Ends schema before step fun _ after => ∃ more, before.levels.Grows more after.levels
    ∧ after.Stands schema false ((more.map Resolved.Join.element).foldl FromElement.seen visible)
    ∧ Phrase.joinsTrace visible written (more.filter Resolved.Join.isExplicit)

theorem joins_trace_nil {id : SpaceId} (hlast : before.levels.Last id)
    (hstands : before.Stands schema false visible) :
    JoinsTracing visible [] schema before (joins id []) :=
  ends_pure ⟨[], Levels.grows_nil hlast, hstands, rfl⟩

theorem joins_trace_cons {id : SpaceId} {first : Phrase.Join} {rest : List Phrase.Join}
    (hlast : before.levels.Last id) (hstands : before.Stands schema false visible)
    (hfirst : JoinTracing visible first schema before (join id first))
    (hrest : ∀ {between : Context} {seen : List FromElement}, between.levels.Last id →
      between.Stands schema false seen → JoinsTracing seen rest schema between (joins id rest)) :
    JoinsTracing visible (first :: rest) schema before (joins id (first :: rest)) := by
  refine ends_bind (ends_both hfirst
    (join_ends first (fun h => h.elim) hstands.sound hlast.level)) ?_
  rintro _ between ⟨⟨node, ⟨front, back, hgrows, hfront, hback, hwritten⟩, hdeclares, hnode⟩,
    hadvances⟩
  have hbetween := hstands.declares hdeclares hadvances.sound
  refine ends_mono (hrest (hgrows.last hlast) hbetween) ?_
  rintro _ after ⟨more, hlater, hafter, hmore⟩
  refine ⟨(front ++ node :: back) ++ more, hgrows.trans hlater, ?_, ?_⟩
  · simpa only [List.map_append, List.map_cons, List.foldl_append, List.foldl_cons, hfront.seen,
      hback.seen] using hafter
  · have hfilter : ((front ++ node :: back) ++ more).filter Resolved.Join.isExplicit
        = node :: more.filter Resolved.Join.isExplicit := by
      simp [List.filter_append, hfront.filter_isExplicit, hback.filter_isExplicit, hwritten]
    rw [hfilter]
    exact ⟨node, _, rfl, hnode, hmore⟩

/-- A space that is opened stands last in the innermost from clause. -/
theorem openSpace_stands (hstands : before.Stands schema false visible) :
    Ends schema before openSpace fun id after => after.Stands schema false visible
      ∧ ∃ opened below, before.levels = opened :: below
        ∧ after.levels = (opened ++ [.vacant]) :: below ∧ id = ⟨below.length, opened.length⟩ := by
  refine ends_openSpace fun id levels hopen => ?_
  obtain ⟨hextends, opened, below, hlevels, rfl, rfl⟩ := hstands.sound.opensSpace hopen
  exact ⟨hstands.same ⟨rfl, rfl⟩ hextends.sound, opened, below, hlevels, rfl, rfl⟩

/-- The space that was opened last gets its root. -/
theorem openedRoot_traces (hstands : before.Stands schema false visible)
    {opened : List OpenSpace} {below : Levels}
    (hopened : before.levels = (opened ++ [.vacant]) :: below) (written : Phrase.Root) :
    Ends schema before (root ⟨below.length, opened.length⟩ written) fun element after =>
      after.Stands schema false (element.seen visible)
        ∧ after.levels = (opened ++ [.rooted element []]) :: below := by
  refine ends_mono (ends_both (root_declares _ written)
    (root_ends hstands.sound (by rw [hopened]; rfl) fun h => h.elim)) ?_
  rintro element after ⟨hdeclares, hextends, -, -, -, -, place, hvacant, hplace, hfilled⟩
  have hfill : (⟨[], opened, [], below⟩ : Place).fill .vacant = place.fill .vacant := by
    rw [← hvacant, hopened]
    rfl
  obtain ⟨rfl, -⟩ := Place.fill_inj hfill hplace.symm
  exact ⟨hstands.declares hdeclares hextends.sound, hfilled⟩

/-- A space is opened, gets its root and then its joins. -/
theorem space_traces {written : Phrase.Root} {hanging : List Phrase.Join}
    (hstands : before.Stands schema false visible)
    (hjoins : ∀ id {between : Context} {seen : List FromElement}, between.levels.Last id →
      between.Stands schema false seen →
      JoinsTracing seen hanging schema between (joins id hanging)) :
    Ends schema before (space (.mk written hanging)) fun _ after =>
      ∃ node, before.levels.Appends [node] after.levels
        ∧ after.Stands schema false (node.seen visible)
        ∧ (Phrase.Space.mk written hanging).Traces visible node := by
  refine ends_bind (openSpace_stands hstands) ?_
  rintro id first ⟨hfirst, opened, below, hlevels, hopened, rfl⟩
  refine ends_bind (openedRoot_traces hfirst hopened written) ?_
  rintro element second ⟨hsecond, hrooted⟩
  have hlast : second.levels.Last ⟨below.length, opened.length⟩ :=
    ⟨opened, element, [], below, hrooted, rfl⟩
  refine ends_mono (hjoins _ hlast hsecond) ?_
  rintro _ after ⟨more, hgrows, hafter, hmore⟩
  obtain ⟨spaces, spaces', other, others, rest, rest', hgrown, hlater, hspaces, hrest⟩ := hgrows
  rw [hrooted] at hgrown
  obtain ⟨hclause, rfl⟩ := List.cons.inj hgrown
  obtain ⟨rfl, hspace⟩ := List.append_inj' hclause rfl
  cases hspace
  exact ⟨.mk element more, ⟨opened, spaces', below, rest', hlevels, hlater, hspaces, hrest⟩,
    hafter, hmore⟩

/-- Spaces that were written are found in the innermost from clause. -/
def SpacesTracing (visible : List FromElement) (written : List Phrase.Space) (schema : Schema)
    (before : Context) (step : Step Unit) : Prop :=
  Ends schema before step fun _ after => ∃ nodes, before.levels.Appends nodes after.levels
    ∧ after.Stands schema false (nodes.foldl Resolved.Space.seen visible)
    ∧ Phrase.spacesTrace visible written nodes

theorem spaces_trace_nil (hinside : before.levels ≠ [])
    (hstands : before.Stands schema false visible) :
    SpacesTracing visible [] schema before (spaces []) :=
  ends_pure ⟨[], Levels.appends_nil hinside, hstands, rfl⟩

theorem spaces_trace_cons {first : Phrase.Space} {rest : List Phrase.Space}
    (hfirst : Ends schema before (space first) fun _ after =>
      ∃ node, before.levels.Appends [node] after.levels
        ∧ after.Stands schema false (node.seen visible) ∧ first.Traces visible node)
    (hrest : ∀ {between : Context} {seen : List FromElement}, between.levels ≠ [] →
      between.Stands schema false seen → SpacesTracing seen rest schema between (spaces rest)) :
    SpacesTracing visible (first :: rest) schema before (spaces (first :: rest)) := by
  refine ends_bind hfirst ?_
  rintro _ between ⟨node, happends, hbetween, hnode⟩
  refine ends_mono (hrest happends.ne_nil hbetween) ?_
  rintro _ after ⟨nodes, hlater, hafter, hnodes⟩
  obtain ⟨spread, hall, hspread⟩ := happends.trans hlater
  obtain ⟨node', others, hnodeSpread, hnil, rfl⟩ := List.forall₂_cons_left_iff.mp hspread
  cases hnil
  have hseen := hnodeSpread.seen visible
  refine ⟨node' :: nodes, hall, ?_, node', nodes, rfl,
    (Phrase.Space.traces_spread hnodeSpread).mpr hnode, hseen.symm ▸ hnodes⟩
  rw [List.foldl_cons, hseen]
  exact hafter

end Step
end Interpretation
end EntityQuery

import EntityQuery.Proofs.NamedEntities
import EntityQuery.Proofs.ReplacedRoots
import EntityQuery.Proofs.SplitDisjoint
import EntityQuery.Proofs.SplitImages

/-!
# Splitting is building anew

Building a query that names entities in place of polymorphic types is building the query that names
the types and then building the outcome anew with the entities as the types of the roots. Space by
space of the from clause, one more root gets the entity that is named for it. So the parts of a query
over polymorphic names are what is built from the phrases that name one implementor in place of each
of them, part by part and in the same order, up to the numbers of the elements.

* `Step.Replaces`: the outcomes of two such from clauses.
* `Step.space_together`, `Step.spaces_together`: the spaces.
* `Step.clauses_end`: the clauses behind the from clause leave its roots.
* `Step.query_together`, `interpretPhrase_withEntities`: the two queries, and their meanings.
* `Splitting.Renamed`: two queries that differ in the numbers of their elements only.
* `interpretPhrase_split_rebuilds`: the parts of a query that has a meaning.
-/

/-! ## From clauses -/

namespace EntityQuery.Interpretation.Step

open Splitting (PolymorphicRoot)

variable {schema : Schema} {choice : Choice} {before : Context}

/-! ## Spaces -/

/-- A new space stands behind the other spaces of its clause. -/
theorem openSpace_ends (houter : before.Outer schema choice) {held : List (Option FromElement)}
    {outer : List (List (Option FromElement))} (hroots : before.levels.roots = held :: outer) :
    Ends schema before openSpace fun id after =>
      after.Outer schema choice ∧ id.level + 1 = after.levels.length
        ∧ ∀ place root, after.levels = Place.fill place .vacant → place.id = id →
          (place.fill (.rooted root [])).roots = (held ++ [some root]) :: outer := by
  refine ends_openSpace fun id levels hopen => ?_
  obtain ⟨hextends, spaces, below, hlevels, rfl, rfl⟩ := houter.sound.opensSpace hopen
  have hfits : Context.Fits choice { before with levels := (spaces ++ [.vacant]) :: below } :=
    houter.fits.idle (Nat.le_refl _) rfl rfl
  refine ⟨houter.next hextends.sound (.idle hfits rfl), rfl, fun place root hfill hid => ?_⟩
  have hsame : Place.fill ⟨[], spaces, [], below⟩ .vacant = place.fill .vacant := hfill
  obtain ⟨rfl, -⟩ := Place.fill_inj hsame hid.symm
  rw [hlevels] at hroots
  obtain ⟨rfl, rfl⟩ := List.cons.inj hroots
  simp [Place.fill, Place.clause, Levels.roots, OpenSpace.root?]

theorem space_together (houter : before.Outer schema choice) {written written' : Phrase.Root}
    {next : FromElement → Choice} (hanging : List Phrase.Join) {held : List (Option FromElement)}
    {outer : List (List (Option FromElement))} (hroots : before.levels.roots = held :: outer)
    (hroot : ∀ {between : Context} (id : SpaceId), between.Outer schema choice →
      Together schema between (between.rebound choice) (root id written) (root id written')
        fun root _ after after' =>
          after' = after.rebound (next root) ∧ between.Follows (next root) after) :
    Together schema before (before.rebound choice) (space (.mk written hanging))
      (space (.mk written' hanging)) fun _ _ after after' => ∃ root,
        after.levels.roots = (held ++ [some root]) :: outer
          ∧ (∃ entity, schema.entity? written.entity.text = some entity
            ∧ root.type = entity.type)
          ∧ after.Outer schema (next root) ∧ after' = after.rebound (next root) := by
  refine together_bind
    (together_with (openSpace_mirrors houter.fits) (openSpace_ends houter hroots)) ?_
  rintro _ id first _ ⟨⟨rfl, rfl, -⟩, hfirst, hid, hplaced⟩
  have hplain : False → Phrase.PlainVariable written.alias? := False.elim
  refine together_bind (together_with (hroot id hfirst) (root_ends hfirst.sound hid hplain)) ?_
  rintro root _ second _
    ⟨⟨rfl, hfollows⟩, hsecond, -, -, -, htype, place, hfill, hplace, hlevels⟩
  have hsecondOuter := hfirst.next hsecond.sound hfollows
  have hgrown : id.level + 1 = second.levels.length := by
    rw [← hsecond.grow.length_eq]
    exact hid
  refine together_mono (together_with (joins_mirror hanging id hfollows.fits)
    (joins_end hanging (fun hfalse : False => hfalse.elim) hsecond.sound hgrown)) ?_
  rintro _ _ third _ ⟨⟨-, rfl, hlater⟩, hthird⟩
  refine ⟨root, ?_, htype, hsecondOuter.next hthird.sound hlater, rfl⟩
  rw [hthird.roots, hlevels]
  exact hplaced place root hfill hplace

/-! ## Polymorphic roots -/

/-- The numbers of the roots over polymorphic names. -/
def polymorphicUids (roots : List FromElement) : List Nat :=
  (roots.filterMap PolymorphicRoot.ofElement?).map PolymorphicRoot.uid

/-- The outcomes of two from clauses, in the second of which entities take the place of polymorphic
names. -/
def Replaces (schema : Schema) (choice : Choice) (held : List (Option FromElement))
    (outer : List (List (Option FromElement))) (names : List Polymorphic) (entities : List Entity)
    (after after' : Context) : Prop :=
  ∃ roots : List FromElement,
    after.levels.roots = (held ++ roots.map some) :: outer
      ∧ (roots.filterMap PolymorphicRoot.ofElement?).map PolymorphicRoot.polymorphic = names
      ∧ after.Outer schema (choice.chooseAll (polymorphicUids roots) entities)
      ∧ after' = after.rebound (choice.chooseAll (polymorphicUids roots) entities)

/-- A root is over a polymorphic name if that is what it names. -/
theorem polymorphic_root {written : Phrase.Root} (hanging : List Phrase.Join) {root : FromElement}
    (h : ∃ entity, schema.entity? written.entity.text = some entity ∧ root.type = entity.type) :
    (PolymorphicRoot.ofElement? root).map PolymorphicRoot.polymorphic
      = Phrase.Space.polymorphic? schema (.mk written hanging) := by
  obtain ⟨entity, hentity, htype⟩ := h
  rw [PolymorphicRoot.ofElement?, htype, Phrase.Space.polymorphic?, hentity]
  cases entity <;> rfl

theorem polymorphicUids_of_none {root : FromElement} {roots : List FromElement}
    {name? : Option Polymorphic}
    (hroot : (PolymorphicRoot.ofElement? root).map PolymorphicRoot.polymorphic = name?)
    (hnone : name? = none) : polymorphicUids (root :: roots) = polymorphicUids roots := by
  rw [hnone, Option.map_eq_none_iff] at hroot
  rw [polymorphicUids, List.filterMap_cons_none hroot]
  rfl

theorem polymorphicUids_of_some {root : FromElement} {roots : List FromElement}
    {name? : Option Polymorphic} {polymorphic : Polymorphic}
    (hroot : (PolymorphicRoot.ofElement? root).map PolymorphicRoot.polymorphic = name?)
    (hsome : name? = some polymorphic) :
    polymorphicUids (root :: roots) = root.uid :: polymorphicUids roots := by
  rw [hsome] at hroot
  obtain ⟨found, hfound, -⟩ := Option.map_eq_some_iff.mp hroot
  rw [polymorphicUids, List.filterMap_cons_some hfound, List.map_cons,
    Splitting.ofElement?_uid hfound]
  rfl

/-- A space is followed by the other spaces. -/
theorem replaces_cons {written : Phrase.Space} {next : Choice}
    {held : List (Option FromElement)} {outer : List (List (Option FromElement))}
    {names : List Polymorphic} {entities rest : List Entity} {root : FromElement}
    {after after' : Context}
    (hroot : (PolymorphicRoot.ofElement? root).map PolymorphicRoot.polymorphic
      = written.polymorphic? schema)
    (hnext : ∀ roots, choice.chooseAll (polymorphicUids (root :: roots)) entities
      = next.chooseAll (polymorphicUids roots) rest)
    (h : Replaces schema next (held ++ [some root]) outer names rest after after') :
    Replaces schema choice held outer ((written.polymorphic? schema).toList ++ names) entities after
      after' := by
  obtain ⟨roots, hroots, hnames, houter, hafter⟩ := h
  refine ⟨root :: roots, ?_, ?_, ?_, ?_⟩
  · rw [hroots, List.map_cons, List.append_assoc]
    rfl
  · rw [← hroot, ← hnames]
    cases hfound : PolymorphicRoot.ofElement? root with
    | none => rw [List.filterMap_cons_none hfound]; rfl
    | some found => rw [List.filterMap_cons_some hfound]; rfl
  · rw [hnext]
    exact houter
  · rw [hnext]
    exact hafter

/-- The names of implementors refer to them. -/
def NamesImplementors (schema : Schema) (naming : Entity → DottedName) : Prop :=
  ∀ name polymorphic, schema.entity? name = some (.polymorphic polymorphic) →
    ∀ entity ∈ polymorphic.implementors,
      schema.entity? (naming entity).text = some (.mapped entity)

/-- One implementor is given for each of some polymorphic names, or none at all. -/
def Fills (names : List Polymorphic) (entities : List Entity) : Prop :=
  entities = [] ∨ entities ∈ tuples (names.map Polymorphic.implementors)

/-- Entities take the place of polymorphic names from left to right. The induction is on the spaces;
what is chosen so far grows with each polymorphic root. -/
theorem spaces_together {naming : Entity → DottedName} (hnaming : NamesImplementors schema naming)
    (written : List Phrase.Space) {entities : List Entity} {choice : Choice} {before : Context}
    {held : List (Option FromElement)} {outer : List (List (Option FromElement))}
    (houter : before.Outer schema choice) (hroots : before.levels.roots = held :: outer)
    (hfills : Fills (written.filterMap (Phrase.Space.polymorphic? schema)) entities) :
    Together schema before (before.rebound choice) (spaces written)
      (spaces (Phrase.spacesWith schema naming written entities))
      fun _ _ after after' => Replaces schema choice held outer
        (written.filterMap (Phrase.Space.polymorphic? schema)) entities after after' := by
  induction written generalizing entities choice before held with
  | nil =>
    rw [Phrase.spacesWith_of_nil]
    refine together_pure ⟨[], ?_, rfl, houter, rfl⟩
    rw [hroots]
    simp
  | cons space rest ih =>
    obtain ⟨written, hanging⟩ := space
    have hsplit : (Phrase.Space.mk written hanging :: rest).filterMap
          (Phrase.Space.polymorphic? schema)
        = (Phrase.Space.polymorphic? schema (.mk written hanging)).toList
          ++ rest.filterMap (Phrase.Space.polymorphic? schema) := by
      cases hname : Phrase.Space.polymorphic? schema (.mk written hanging) with
      | none => rw [List.filterMap_cons_none hname]; rfl
      | some found => rw [List.filterMap_cons_some hname]; rfl
    rw [hsplit] at hfills ⊢
    by_cases hkept : entities = [] ∨ Phrase.Space.polymorphic? schema (.mk written hanging) = none
    · -- The root is the same in both runs, and nothing is chosen for it.
      have hroot : ∀ {between : Context} (id : SpaceId), between.Outer schema choice →
          Together schema between (between.rebound choice) (root id written) (root id written)
            fun _ _ after after' =>
              after' = after.rebound choice ∧ between.Follows choice after :=
        fun id hbetween => together_mono (root_mirrors hbetween.fits id written)
          fun _ _ _ _ h => h.2
      rw [Phrase.spacesWith_kept hkept]
      refine together_bind (space_together houter hanging hroots hroot) ?_
      rintro _ _ between _ ⟨root, hbetween, htype, hfirst, rfl⟩
      have hnext : ∀ roots, choice.chooseAll (polymorphicUids (root :: roots)) entities
          = choice.chooseAll (polymorphicUids roots) entities := by
        intro roots
        rcases hkept with rfl | hnone
        · rw [Choice.chooseAll_nil, Choice.chooseAll_nil]
        · rw [polymorphicUids_of_none (polymorphic_root hanging htype) hnone]
      have hrest : Fills (rest.filterMap (Phrase.Space.polymorphic? schema)) entities := by
        rcases hkept with rfl | hnone
        · exact .inl rfl
        · rw [hnone] at hfills
          exact hfills
      exact together_mono (ih hfirst hbetween hrest) fun _ _ after after' =>
        replaces_cons (polymorphic_root hanging htype) hnext
    · obtain ⟨hsome, hname⟩ := not_or.mp hkept
      obtain ⟨polymorphic, hpolymorphic⟩ := Option.ne_none_iff_exists'.mp hname
      rw [hpolymorphic] at hfills
      obtain ⟨entity, others, rfl, hentity, hothers⟩ :=
        tuples_cons_mem (hfills.resolve_left hsome)
      have hwritten : schema.entity? written.entity.text = some (.polymorphic polymorphic) :=
        Phrase.Space.polymorphic?_some hpolymorphic
      have hroot : ∀ {between : Context} (id : SpaceId), between.Outer schema choice →
          Together schema between (between.rebound choice) (root id written)
            (root id { written with entity := naming entity }) fun root _ after after' =>
              after' = after.rebound (choice.choose root.uid entity)
                ∧ between.Follows (choice.choose root.uid entity) after :=
        fun id hbetween => root_together hbetween id hwritten hentity
          (hnaming _ polymorphic hwritten entity hentity)
      rw [Phrase.spacesWith_replaced hpolymorphic]
      refine together_bind (space_together houter hanging hroots hroot) ?_
      rintro _ _ between _ ⟨root, hbetween, htype, hfirst, rfl⟩
      have hnext : ∀ roots, choice.chooseAll (polymorphicUids (root :: roots)) (entity :: others)
          = (choice.choose root.uid entity).chooseAll (polymorphicUids roots) others := by
        intro roots
        rw [polymorphicUids_of_some (polymorphic_root hanging htype) hpolymorphic]
        rfl
      exact together_mono (ih hfirst hbetween (.inr hothers)) fun _ _ after after' =>
        replaces_cons (polymorphic_root hanging htype) hnext

end EntityQuery.Interpretation.Step

/-! ## Queries -/

namespace EntityQuery.Interpretation

open Resolved (Select Space)
open Splitting (PolymorphicRoot)

variable {schema : Schema} {before : Context}

namespace Step

/-- The clauses behind the from clause leave the roots and wait for their spaces. -/
theorem clauses_end {select : Option Phrase.SelectClause} {condition : Option Phrase.Predicate}
    {ordering : Option (List Phrase.SortItem)} {limit offset : Option Phrase.Expression}
    (hsound : before.Sound schema False) :
    Ends schema before (clauses select condition ordering limit offset) fun value after =>
      after.levels.roots = before.levels.roots
        ∧ ∀ spaces, (value spaces).roots = spaces.map Space.root := by
  refine ends_bind (selectClause_builds select False.elim hsound) ?_
  rintro ⟨distinct, selections⟩ first ⟨hfirst, hroots, -, -⟩
  refine ends_bind (restriction_builds condition False.elim hfirst.sound) ?_
  rintro restriction second ⟨hsecond, -⟩
  refine ends_bind (order_builds ordering False.elim hsecond.sound) ?_
  rintro order third ⟨hthird, -, -⟩
  refine ends_bind (optional_builds limit False.elim hthird.sound) ?_
  rintro limit fourth ⟨hfourth, -⟩
  refine ends_bind (optional_builds offset False.elim hfourth.sound) ?_
  rintro offset fifth ⟨hfifth, -⟩
  refine ends_pure ⟨?_, fun spaces => rfl⟩
  rw [hfifth.roots, hfourth.roots, hthird.roots, hsecond.roots, hroots]

theorem outer_empty : Context.empty.openLevel.Outer schema Choice.none where
  sound := (Context.Sound.empty schema False).openLevel
  fits := by
    constructor
    case fresh => exact fun _ _ hnone => by cases hnone
    case registered => exact fun _ hnone => by cases hnone
    case bound => exact fun _ hnone => by cases hnone
    case outermost => exact .inl fun further hfurther => List.mem_singleton.mp hfurther
  trail := ⟨[], rfl, fun _ hnone => by cases hnone⟩

/-- The roots of the only level are those of its finished spaces. -/
theorem closed_roots {levels : Levels} {roots : List FromElement} {spaces : List Space}
    (h : levels.roots = [roots.map some]) (hclose : Levels.close (levels.headD []) = .ok spaces) :
    spaces.map Space.root = roots := by
  cases levels with
  | nil => cases h
  | cons held below =>
    have hheld : held.map OpenSpace.root? = roots.map some := (List.cons.inj h).1
    have hclosed : held.map OpenSpace.root? = spaces.map fun space => some space.root :=
      Levels.close_roots hclose
    have hsome : (spaces.map Space.root).map some = roots.map some := by
      rw [← hheld, hclosed, List.map_map]
      rfl
    exact List.map_injective_iff.mpr (Option.some_injective _) hsome

/-- The query over entities is the query over polymorphic names built anew. -/
theorem query_together {naming : Entity → DottedName} (hnaming : NamesImplementors schema naming)
    (written : Phrase.Query) {entities : List Entity}
    (hfills : Fills (written.polymorphicNames schema) entities) :
    Together schema .empty .empty (query written false)
      (query (written.withEntities schema naming entities) false) fun select select' after after' =>
        (select.roots.filterMap PolymorphicRoot.ofElement?).map PolymorphicRoot.polymorphic
            = written.polymorphicNames schema
          ∧ select' = select.rebuilt true (FromElement.rebound
            (Choice.none.chooseAll (polymorphicUids select.roots) entities))
          ∧ after'.narrowings = after.narrowings := by
  obtain ⟨select, written, condition, ordering, limit, offset⟩ := written
  refine together_bind (Q := fun _ _ after after' => after = .empty ∧ after' = .empty)
    (together_comply ⟨rfl, rfl⟩) ?_
  rintro _ _ _ _ ⟨rfl, rfl⟩
  refine together_bind (Q := fun _ _ after after' => after = .empty ∧ after' = .empty)
    (together_comply ⟨rfl, rfl⟩) ?_
  rintro _ _ _ _ ⟨rfl, rfl⟩
  refine together_bind (Q := fun value value' after after' =>
    ((value.1 value.2).roots.filterMap PolymorphicRoot.ofElement?).map PolymorphicRoot.polymorphic
        = written.filterMap (Phrase.Space.polymorphic? schema)
      ∧ value'.1 value'.2 = (value.1 value.2).rebuilt true (FromElement.rebound
        (Choice.none.chooseAll (polymorphicUids (value.1 value.2).roots) entities))
      ∧ after'.narrowings = after.narrowings) (together_onLevel ?_) ?_
  swap
  · rintro ⟨clauses, spaces⟩ ⟨clauses', spaces'⟩ after after' h
    exact together_pure h
  refine together_bind (spaces_together hnaming written outer_empty rfl hfills) ?_
  rintro _ _ between _ ⟨roots, hroots, hnames, houter, rfl⟩
  have hnone : between.trail.results = [] := by
    obtain ⟨marks, htrail, hmarks⟩ := houter.trail
    rw [htrail, Trail.results_append _ hmarks]
    rfl
  refine together_mono (together_with (clauses_mirror hnone
    (selectClause_mirrors select houter.fits) (restriction_mirrors condition)
    (order_mirrors ordering) (optional_mirrors limit) (optional_mirrors offset))
    (clauses_end houter.sound)) ?_
  rintro value value' after _ ⟨⟨hvalue, rfl, -⟩, hkept, hvalueRoots⟩ spaces spaces' hclose hclose'
  have hselect : (value spaces).roots = roots := by
    rw [hvalueRoots]
    exact closed_roots (hkept.trans hroots) hclose
  rw [Context.rebound, Levels.headD_rebound] at hclose'
  refine ⟨?_, ?_, rfl⟩
  · rw [hselect]
    exact hnames
  · rw [hselect, Levels.close_rebound hclose hclose']
    exact hvalue spaces

end Step

/-- The meaning of a phrase that selects is what its query is built as. -/
theorem interpretPhrase_select {written : Phrase.Query} {meaning : Meaning}
    (h : interpretPhrase (.select written) schema = .ok meaning) :
    ∃ select context, (Step.query written false).run' schema .empty = (.ok select, context)
      ∧ meaning.statement = .select select ∧ meaning.narrowings = context.narrowings := by
  unfold interpretPhrase at h
  split at h
  · rename_i statement context hrun
    cases h
    obtain ⟨select, between, hquery, hreturn⟩ := Step.run_bind_ok.mp hrun
    cases hreturn
    exact ⟨select, context, hquery, rfl, rfl⟩
  · cases h

/-- The meaning of a phrase that names entities in place of polymorphic types. -/
theorem interpretPhrase_withEntities {naming : Entity → DottedName}
    (hnaming : Step.NamesImplementors schema naming) {written : Phrase.Query}
    {meaning meaning' : Meaning} {select : Select}
    (h : interpretPhrase (.select written) schema = .ok meaning)
    (hselect : meaning.statement = .select select) {entities : List Entity}
    (hfills : Step.Fills (written.polymorphicNames schema) entities)
    (h' : interpretPhrase (.select (written.withEntities schema naming entities)) schema
      = .ok meaning') :
    (select.roots.filterMap PolymorphicRoot.ofElement?).map PolymorphicRoot.polymorphic
        = written.polymorphicNames schema
      ∧ meaning'.statement = .select (select.rebuilt true (FromElement.rebound
        (Choice.none.chooseAll (Step.polymorphicUids select.roots) entities)))
      ∧ meaning'.narrowings = meaning.narrowings := by
  obtain ⟨built, context, hrun, hstatement, hmarks⟩ := interpretPhrase_select h
  obtain ⟨built', context', hrun', hstatement', hmarks'⟩ := interpretPhrase_select h'
  rw [hselect] at hstatement
  cases hstatement
  obtain ⟨hnames, hbuilt, hkept⟩ :=
    Step.query_together hnaming written hfills select context hrun built' context' hrun'
  refine ⟨hnames, ?_, ?_⟩
  · rw [hstatement', hbuilt]
  · rw [hmarks', hkept, hmarks]

end EntityQuery.Interpretation

/-! ## Parts of a query -/

namespace EntityQuery

open Interpretation Resolved Splitting

namespace Splitting

/-- The second query is the first one with other numbers: the same tree with the same variables,
types and marks, in which two positions share an element exactly if they did before. -/
structure Renamed (number : Nat → Nat) (query renamed : Query) : Prop where
  bijective : Set.BijOn number query.numbers renamed.numbers
  select : renamed.select
    = query.select.rebuilt false (FromElement.mapBinding (Binding.renumbered number))
  marks : ∀ uid ∈ query.numbers, renamed.narrowings.of (number uid) = query.narrowings.of uid

/-- Chosen types leave the numbers. -/
theorem numbers_rebound (choice : Choice) (select : Select) (marks others : Narrowings) :
    Query.numbers ⟨select.rebuilt true (FromElement.rebound choice), others⟩
      = Query.numbers ⟨select, marks⟩ := by
  have helements : (select.rebuilt true (FromElement.rebound choice)).elements
      = select.elements.map (FromElement.rebound choice) := Select.elements_rebuilt true _ select
  have huids : FromElement.uid ∘ FromElement.rebound choice = FromElement.uid :=
    funext fun element => element.uid_rebound
  rw [Query.numbers, Query.numbers, helements, List.map_map, huids]

/-- An image is the query with the chosen types under other numbers. -/
theorem ImageOf.renamed {query image : Query} {choice : Choice} {number : Nat → Nat}
    (h : ImageOf query choice number image) :
    Renamed number ⟨query.select.rebuilt true (FromElement.rebound choice), query.narrowings⟩
      image where
  bijective := by
    rw [numbers_rebound choice query.select query.narrowings]
    exact h.bijective
  select := by
    have hkeep : ∀ element : FromElement,
        (element.mapBinding (Binding.renumbered number)).type = element.type := by
      intro element
      rw [FromElement.type, FromElement.binding_mapBinding]
      rfl
    rw [h.select, Select.rebuilt_rebuilt fun _ _ => hkeep]
    refine congrArg (Select.rebuilt true · query.select) (funext fun element => ?_)
    rw [FromElement.rebound, FromElement.mapBinding_mapBinding]
  marks := by
    rw [numbers_rebound choice query.select query.narrowings]
    exact h.marks

end Splitting

/-- When a query that has a meaning is split, there is one part for each choice of implementors for
the polymorphic types of its outermost from clause, in lexicographic order. Wherever the phrase that
names a choice has a meaning, too, its part is that meaning under other numbers. -/
theorem interpretPhrase_split_rebuilds {model : Metamodel} (hmodel : model.Reachable)
    {naming : Entity → DottedName} (hnaming : ∀ entity, (naming entity).text = entity.name)
    {written : Phrase.Query} {meaning : Meaning} {select : Select}
    (h : interpretPhrase (.select written) model.schema = .ok meaning)
    (hselect : meaning.statement = .select select) :
    List.Forall₂ (fun entities part => ∀ meaning',
        interpretPhrase (.select (written.withEntities model.schema naming entities)) model.schema
          = .ok meaning' →
        ∃ select' number, meaning'.statement = .select select'
          ∧ Renamed number ⟨select', meaning'.narrowings⟩ part)
      (tuples ((written.polymorphicNames model.schema).map Polymorphic.implementors))
      (Query.split ⟨select, meaning.narrowings⟩) := by
  have hnames : Step.NamesImplementors model.schema naming := by
    intro name polymorphic hname entity hentity
    rw [hnaming]
    exact hmodel.implementor hname hentity
  -- Without entities, the same phrase is built in both runs.
  have hsame : written.withEntities model.schema naming [] = written := by
    obtain ⟨clause, spaces, condition, ordering, limit, offset⟩ := written
    exact congrArg (Phrase.Query.mk clause · condition ordering limit offset)
      (Phrase.spacesWith_nil spaces)
  obtain ⟨hroots, hself, -⟩ :=
    interpretPhrase_withEntities hnames h hselect (.inl rfl) (by rw [hsame]; exact h)
  rw [hselect, Choice.chooseAll_nil] at hself
  have hidentity : FromElement.rebound Choice.none = id :=
    funext fun element => element.rebound_none
  rw [hidentity] at hself
  have himages := split_images (interpretPhrase_splittable h hselect)
    (Statement.select.inj hself).symm
  have hchoices : rootChoices (Query.polymorphicRoots ⟨select, meaning.narrowings⟩)
      = tuples ((written.polymorphicNames model.schema).map Polymorphic.implementors) := by
    rw [← hroots, List.map_map]
    rfl
  rw [PartsFor, hchoices] at himages
  refine List.Forall₂.imp ?_ ((List.forall₂_and_left _ _).mpr ⟨fun _ hmem => hmem, himages⟩)
  rintro entities part ⟨hmem, number, himage⟩ meaning' hmeaning'
  obtain ⟨-, hstatement, hmarks⟩ :=
    interpretPhrase_withEntities hnames h hselect (.inr hmem) hmeaning'
  rw [hmarks]
  exact ⟨_, number, hstatement, himage.renamed⟩

/-! ## Pairs of animals -/

/-- The names of pairs of animals of which one is called like the other. -/
def namesakesText : String :=
  "select a.name as called, b from Animal a, Animal b where b.name = a.name order by called"

/-- Each animal is a cat or a dog. -/
def pairs : List (List Entity) := [[cat, cat], [cat, dog], [dog, cat], [dog, dog]]

def entityNaming (entity : Entity) : DottedName := .single entity.name

theorem entityNaming_text (entity : Entity) : (entityNaming entity).text = entity.name := by
  simp [entityNaming, DottedName.single, DottedName.text]

theorem kennel_reachable : kennel.Reachable := by
  have hkennel : Metamodel.ofConfiguration
      { entities := [cat, dog], polymorphic := [⟨"Animal", ["Cat", "Dog"]⟩] } = .ok kennel := rfl
  exact .configured hkennel

/-- The phrase has a meaning, and so has the phrase that names a pair in place of the animals. -/
def namesPairs (written : Phrase.Query) : Bool :=
  (interpretPhrase (.select written) kennel.schema).isOk
    && (tuples ((written.polymorphicNames kennel.schema).map Polymorphic.implementors) == pairs)
    && pairs.all fun entities =>
      (interpretPhrase (.select (written.withEntities kennel.schema entityNaming entities))
        kennel.schema).isOk

theorem exists_of_isOk {error α : Type} {outcome : Except error α} (h : outcome.isOk = true) :
    ∃ value, outcome = .ok value := by
  cases outcome with
  | error fault => cases h
  | ok value => exact ⟨value, rfl⟩

/-- The text is read as such a phrase. -/
def spellsPairs (text : String) : Bool :=
  match Phrase.Statement.ofText text with
  | .ok (.select written) => namesPairs written
  | _ => false

theorem namesakes_written :
    ∃ written, Phrase.Statement.ofText namesakesText = .ok (.select written)
      ∧ namesPairs written = true := by
  have hpasses : spellsPairs namesakesText = true := by decide +kernel
  unfold spellsPairs at hpasses
  split at hpasses
  · rename_i written hread
    exact ⟨written, hread, hpasses⟩
  · cases hpasses

/-- Each of the four parts is what is built from the phrase that names its pair. -/
theorem interpretPhrase_split_rebuilds_namesakes :
    ∃ written meaning select, Phrase.Statement.ofText namesakesText = .ok (.select written)
      ∧ interpretPhrase (.select written) kennel.schema = .ok meaning
      ∧ meaning.statement = .select select
      ∧ List.Forall₂ (fun entities part => ∃ meaning' select' number,
          interpretPhrase (.select (written.withEntities kennel.schema entityNaming entities))
              kennel.schema = .ok meaning'
            ∧ meaning'.statement = .select select'
            ∧ Renamed number ⟨select', meaning'.narrowings⟩ part)
        pairs (Query.split ⟨select, meaning.narrowings⟩) := by
  obtain ⟨written, hread, hnamed⟩ := namesakes_written
  simp only [namesPairs, Bool.and_eq_true, List.all_eq_true] at hnamed
  obtain ⟨⟨hmeaning, hpairs⟩, hall⟩ := hnamed
  obtain ⟨meaning, hmeaning⟩ := exists_of_isOk hmeaning
  obtain ⟨select, context, -, hselect, -⟩ := interpretPhrase_select hmeaning
  have hparts :=
    interpretPhrase_split_rebuilds kennel_reachable entityNaming_text hmeaning hselect
  rw [eq_of_beq hpairs] at hparts
  refine ⟨written, meaning, select, hread, hmeaning, hselect, ?_⟩
  refine List.Forall₂.imp ?_ ((List.forall₂_and_left _ _).mpr ⟨fun _ hmem => hmem, hparts⟩)
  rintro entities part ⟨hmem, hpart⟩
  obtain ⟨meaning', hmeaning'⟩ := exists_of_isOk (hall entities hmem)
  obtain ⟨select', number, hselect', hrenamed⟩ := hpart meaning' hmeaning'
  exact ⟨meaning', select', number, hmeaning', hselect', hrenamed⟩

end EntityQuery

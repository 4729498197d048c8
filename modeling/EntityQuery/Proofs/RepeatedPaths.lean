import EntityQuery.Proofs.AbandonedElements
import EntityQuery.Proofs.BuiltStatements
import EntityQuery.Proofs.PlainReading

/-!
# Paths that are read again

While a statement is interpreted, levels are opened, resolvers are put in force, and the parts of
clauses are built one after the other. A state that is met on the way is left by such steps from the
empty state on. In all of them the written variables are plain, so none of them looks like a made-up
one; nothing else is asked of what is written.

A path that is read a second time has the outcome that it had before and leaves the state as it is,
whether it led somewhere or failed halfway. Each implicit join that the first reading made is found
again, and none of them changes what the second one asks of the state: joins that paths make stand
for no bare attribute, have variables of their own and leave every element in its space. Only a path
that starts with a made-up variable which was not drawn yet may be read otherwise, when the first
reading draws that variable.

* `Step.Building`: the steps that build the parts of clauses.
* `Context.Underway`, `Context.Underway.sound`: the states that are met on the way are sound.
* `Context.AnswersAlike`: a state answers what another one did.
* `Context.JoinsAnew`: the state after an implicit join was made.
* `Step.Recurs`: a step that is repeated without effect, also in later states.
* `Context.Underway.paths_repeat`: paths are read again without effect.
-/

namespace EntityQuery.Interpretation

/-! ## States that are met on the way -/

namespace Step

/-- The steps that build the parts of clauses. Elements are put into spaces of the current level. -/
inductive Building (before : Context) : {α : Type} → Step α → Prop where
  | openSpace : Building before openSpace
  | root {id : SpaceId} {written : Phrase.Root} (hid : id.level + 1 = before.levels.length)
    (hplain : Phrase.PlainVariable written.alias?) : Building before (root id written)
  /-- A join before it is restricted. -/
  | joinTarget {id : SpaceId} {alias? : Option String}
    (hid : id.level + 1 = before.levels.length) (hplain : Phrase.PlainVariable alias?)
    (target : Phrase.JoinTarget) (joinType : JoinType) (fetched : Bool) :
    Building before (joinTarget id target alias? joinType fetched)
  | join {id : SpaceId} {written : Phrase.Join} (hid : id.level + 1 = before.levels.length)
    (hplain : written.Plain) : Building before (join id written)
  | bulkTarget {written : Phrase.Root} (hplain : Phrase.PlainVariable written.alias?) :
    Building before (bulkTarget written)
  /-- The target of an insertion with its fields, on a level that is left again. -/
  | insertion (target : DottedName) (fields : List DottedName) :
    Building before (onLevel do
      let element ← bulkTarget ⟨target, none⟩
      under .bulk (fields.mapM fun field => stateField ⟨element.aliasName :: field.parts⟩))
  | assignment {written : Phrase.Assignment} (hplain : written.value.Plain) :
    Building before (assignment written)
  /-- The first parts of a path, as far as they lead to an element. -/
  | elementParts (parts : List String) (dotted : DottedName) :
    Building before (fromElementParts parts dotted)
  | path (dotted : DottedName) : Building before (path dotted)
  | expression {written : Phrase.Expression} (hplain : written.Plain) :
    Building before (expression written)
  | predicate {written : Phrase.Predicate} (hplain : written.Plain) :
    Building before (predicate written)
  | selectExpression {written : Phrase.SelectExpression} (hplain : written.Plain) :
    Building before (selectExpression written)
  | selections {items : List Phrase.SelectItem} (hplain : Phrase.itemsPlain items)
    (position : Nat) : Building before (selections items position)
  | selectClause {written : Option Phrase.SelectClause} (hplain : Phrase.clausePlain written) :
    Building before (selectClause written)
  | sortItem {written : Phrase.SortItem} (hplain : written.Plain) :
    Building before (sortItem written)
  | announcedFunction (function : CollectionFunction) :
    Building before (announceCollectionFunction function)
  | announcedCall (name : String) (generic standard : Bool) :
    Building before (announceCall name generic standard)

variable {schema : Schema} {before : Context}

/-- A step that builds a part of a clause leaves a sound state. -/
theorem Building.keeps {α : Type} {step : Step α} (h : Building before step)
    (hsound : before.Sound schema True) :
    Ends schema before step fun _ after => after.Sound schema True := by
  cases h with
  | openSpace => exact ends_openSpace fun _ _ hopen => (hsound.opensSpace hopen).1.sound
  | root hid hplain =>
    exact ends_mono (root_ends hsound hid fun _ => hplain) fun _ _ h => h.1.sound
  | joinTarget hid hplain target joinType fetched =>
    exact ends_mono (joinTarget_finds hsound hid target (fun _ => hplain) joinType fetched)
      fun _ _ h => h.1.sound
  | join hid hplain => exact ends_mono (join_ends _ (fun _ => hplain) hsound hid) fun _ _ h => h.sound
  | bulkTarget hplain =>
    exact ends_mono (bulkTarget_extends (fun _ => hplain) hsound) fun _ _ h => h.sound
  | insertion target fields =>
    have hnone : True → Phrase.PlainVariable none := fun _ _ h => by cases h
    exact ends_mono (bulk_ends hnone hsound (insertFields_build fields)) fun _ _ h => h.1.sound
  | assignment hplain =>
    exact ends_mono (assignment_builds (fun _ => hplain) hsound) fun _ _ h => h.1.sound
  | elementParts parts dotted =>
    exact ends_mono (fromElementParts_finds hsound parts dotted) fun _ _ h => h.1.sound
  | path dotted => exact ends_mono (path_builds hsound dotted) fun _ _ h => h.1.sound
  | expression hplain =>
    exact ends_mono (expression_builds _ (fun _ => hplain) hsound) fun _ _ h => h.1.sound
  | predicate hplain =>
    exact ends_mono (predicate_builds _ (fun _ => hplain) hsound) fun _ _ h => h.1.sound
  | selectExpression hplain =>
    exact ends_mono (selectExpression_builds _ (fun _ => hplain) hsound) fun _ _ h => h.1.sound
  | selections hplain position =>
    exact ends_mono (selections_build _ position (fun _ => hplain) hsound) fun _ _ h => h.1.sound
  | selectClause hplain =>
    exact ends_mono (selectClause_builds _ (fun _ => hplain) hsound) fun _ _ h => h.1.sound
  | sortItem hplain =>
    exact ends_mono (sortItem_builds _ (fun _ => hplain) hsound) fun _ _ h => h.1.sound
  | announcedFunction function =>
    exact ends_mono (announceCollectionFunction_ends hsound function) fun _ _ h => h.sound
  | announcedCall name generic standard =>
    exact ends_mono (announceCall_ends hsound name generic standard) fun _ _ h => h.sound

end Step

namespace Context

/-- The states that are met while a statement is interpreted whose variables are plain. -/
inductive Underway (schema : Schema) : Context → Prop where
  | empty : Underway schema .empty
  | level {context : Context} (h : Underway schema context) : Underway schema context.openLevel
  | resolver {context : Context} (h : Underway schema context) (resolver : Resolver) :
    Underway schema (context.pushResolver resolver)
  | step {before after : Context} {α : Type} {step : Step α} {value : α}
    (h : Underway schema before) (hstep : step.Building before)
    (hrun : step.run' schema before = (.ok value, after)) : Underway schema after

/-- A state that is met on the way is sound. -/
theorem Underway.sound {schema : Schema} {context : Context} (h : context.Underway schema) :
    context.Sound schema True := by
  induction h with
  | empty => exact .empty schema True
  | level _ ih => exact ih.openLevel
  | resolver _ resolver ih => exact (ih.idle _ _ _).sound
  | step _ hstep hrun ih => exact hstep.keeps ih _ _ hrun

end Context

open Resolved (AttributeReference Expression IndexedReference PathSource)

/-! ## What paths ask of a state -/

namespace Levels

/-- The place of an element depends on which spaces contain it. -/
theorem spaceOf?_congr {levels other : Levels} {uid : Nat}
    (h : levels.map (List.map fun space => space.contains uid)
      = other.map (List.map fun space => space.contains uid)) :
    levels.spaceOf? uid = other.spaceOf? uid := by
  induction levels generalizing other with
  | nil =>
    cases other with
    | nil => rfl
    | cons spaces below => cases h
  | cons spaces below ih =>
    cases other with
    | nil => cases h
    | cons spaces' below' =>
      obtain ⟨hspaces, hbelow⟩ := List.cons.inj h
      have hlength : below.length = below'.length := by simpa using congrArg List.length hbelow
      have hindex : spaces.findIdx? (fun space => space.contains uid)
          = spaces'.findIdx? fun space => space.contains uid := by
        have hfind := congrArg (List.findIdx? id) hspaces
        simpa [List.findIdx?_map, Function.comp_def] using hfind
      simp only [spaceOf?, hindex, hlength, ih hbelow]

/-- A join that is put at the end of a space leaves the places of all other elements. -/
theorem spaceOf?_fill (place : Place) (root element : FromElement) (joins : List Resolved.Join)
    {uid : Nat} (h : element.uid ≠ uid) :
    spaceOf? (place.fill (.rooted root (joins ++ [.mk element none]))) uid
      = spaceOf? (place.fill (.rooted root joins)) uid := by
  have hcontains : (OpenSpace.rooted root (joins ++ [.mk element none])).contains uid
      = (OpenSpace.rooted root joins).contains uid := by
    simp [OpenSpace.contains, OpenSpace.elements, Resolved.Join.element, beq_false_of_ne h]
  refine spaceOf?_congr ?_
  simp [Place.fill, Place.clause, hcontains]

end Levels

/-- A join that a path made is no candidate for a bare attribute. -/
theorem bareOwner_implicit {element : FromElement} (h : element.isImplicit = true) (name : String)
    (trail : Trail) :
    bareOwner name (Trail.frames (.element element :: trail)) = bareOwner name trail.frames := by
  rw [Trail.frames_element]
  cases hframes : trail.frames with
  | nil => exact absurd hframes trail.frames_ne_nil
  | cons frame outer =>
    have hcandidates : candidates name (frame ++ [element]) = candidates name frame := by
      simp [candidates, h]
    simp only [List.headD_cons, List.tail_cons, bareOwner, hcandidates]

namespace Context

/-- The name is that of a variable which was made up on the way. -/
def Drew (before after : Context) (name : String) : Prop :=
  ∃ number, before.nextAlias ≤ number ∧ number < after.nextAlias ∧ name = generatedAlias number

/-- What a path may ask of the state before is answered alike by the state after. -/
structure AnswersAlike (before after : Context) : Prop where
  uids : before.nextUid ≤ after.nextUid
  aliases : before.nextAlias ≤ after.nextAlias
  resolvers : after.resolvers = before.resolvers
  joins : ∀ source declared join, before.implicitJoin? source declared = some join →
    after.implicitJoin? source declared = some join
  spaces : ∀ uid < before.nextUid, after.levels.spaceOf? uid = before.levels.spaceOf? uid
  names : ∀ name, ¬before.Drew after name →
    after.trail.element? name = before.trail.element? name
  owners : ∀ name, bareOwner name after.trail.frames = bareOwner name before.trail.frames

namespace AnswersAlike

variable {before between after : Context}

theorem refl (context : Context) : context.AnswersAlike context :=
  ⟨Nat.le_refl _, Nat.le_refl _, rfl, fun _ _ _ h => h, fun _ _ => rfl, fun _ _ => rfl, fun _ => rfl⟩

theorem trans (h : before.AnswersAlike between) (h' : between.AnswersAlike after) :
    before.AnswersAlike after where
  uids := Nat.le_trans h.uids h'.uids
  aliases := Nat.le_trans h.aliases h'.aliases
  resolvers := h'.resolvers.trans h.resolvers
  joins := fun source declared join hjoin => h'.joins _ _ _ (h.joins source declared join hjoin)
  spaces := fun uid huid =>
    (h'.spaces uid (Nat.lt_of_lt_of_le huid h.uids)).trans (h.spaces uid huid)
  names := by
    intro name hname
    refine (h'.names name ?_).trans (h.names name ?_)
    · rintro ⟨number, hle, hlt, hdrawn⟩
      exact hname ⟨number, Nat.le_trans h.aliases hle, hlt, hdrawn⟩
    · rintro ⟨number, hle, hlt, hdrawn⟩
      exact hname ⟨number, hle, Nat.lt_of_lt_of_le hlt h'.aliases, hdrawn⟩
  owners := fun name => (h'.owners name).trans (h.owners name)

theorem resolver (h : before.AnswersAlike after) : after.resolver = before.resolver := by
  rw [Context.resolver, h.resolvers, Context.resolver]

end AnswersAlike

/-- An implicit join is made for a source and an attribute without one. -/
structure JoinsAnew (before : Context) (source : Nat) (declared : String) (element : FromElement)
    (after : Context) : Prop where
  unknown : before.implicitJoin? source declared = none
  implicit : element.isImplicit = true
  number : element.uid = before.nextUid
  name : element.aliasName = generatedAlias before.nextAlias
  uids : after.nextUid = before.nextUid + 1
  aliases : after.nextAlias = before.nextAlias + 1
  registered : after.registered = element :: before.registered
  remembered : after.implicitJoins = ⟨source, declared, element.uid⟩ :: before.implicitJoins
  trail : after.trail = .element element :: before.trail
  resolvers : after.resolvers = before.resolvers
  levels : ∃ place root joins, before.levels = Place.fill place (.rooted root joins)
    ∧ after.levels = place.fill (.rooted root (joins ++ [.mk element none]))

namespace JoinsAnew

variable {before after : Context} {source : Nat} {declared : String} {element : FromElement}

/-- The new join is the one that is found from now on. -/
theorem recalled (h : before.JoinsAnew source declared element after) :
    after.implicitJoin? source declared = some element := by
  simp [implicitJoin?, find?, h.remembered, h.registered]

theorem find?_of_lt (h : before.JoinsAnew source declared element after) {uid : Nat}
    (huid : uid < before.nextUid) : after.find? uid = before.find? uid := by
  have hnumber := h.number
  rw [find?, h.registered, List.find?_cons_of_neg (by simp only [beq_iff_eq]; omega), find?]

theorem joins (h : before.JoinsAnew source declared element after) (hdrawn : before.Drawn)
    {source' : Nat} {declared' : String} {join : FromElement}
    (hjoin : before.implicitJoin? source' declared' = some join) :
    after.implicitJoin? source' declared' = some join := by
  have hkey : ¬(source = source' ∧ declared = declared') := by
    rintro ⟨rfl, rfl⟩
    rw [h.unknown] at hjoin
    cases hjoin
  obtain ⟨known, hknown, hfind⟩ := Option.bind_eq_some_iff.mp hjoin
  rw [implicitJoin?, h.remembered, List.find?_cons_of_neg (by simpa using hkey), hknown,
    Option.bind_some, h.find?_of_lt (hdrawn.remembered known (List.mem_of_find?_eq_some hknown))]
  exact hfind

theorem answers (h : before.JoinsAnew source declared element after) (hdrawn : before.Drawn) :
    before.AnswersAlike after where
  uids := by rw [h.uids]; exact Nat.le_succ _
  aliases := by rw [h.aliases]; exact Nat.le_succ _
  resolvers := h.resolvers
  joins := fun _ _ _ hjoin => h.joins hdrawn hjoin
  spaces := by
    intro uid huid
    obtain ⟨place, root, joins, hbefore, hafter⟩ := h.levels
    have hnumber := h.number
    rw [hafter, hbefore, Levels.spaceOf?_fill place root element joins (by omega)]
  names := by
    intro name hname
    have hother : element.aliasName ≠ name := fun heq => hname
      ⟨before.nextAlias, Nat.le_refl _, by rw [h.aliases]; exact Nat.lt_succ_self _,
        heq.symm.trans h.name⟩
    rw [h.trail]
    simp [Trail.element?, Trail.find?, Mark.element?, hother]
  owners := by
    intro name
    rw [h.trail, bareOwner_implicit h.implicit]

end JoinsAnew
end Context

/-! ## Steps that are repeated -/

namespace Step

/-- A step that looks at the schema only: it has one outcome, wherever it starts, and leaves the
state. -/
def Steady {α : Type} (schema : Schema) (step : Step α) : Prop :=
  ∃ outcome, ∀ context, step.run' schema context = (outcome, context)

/-- Repeating the step has no effect: where it ends, it ends so again in every state that answers
alike; where it fails, it fails so again in the state that it leaves. -/
structure Recurs {α : Type} (schema : Schema) (before : Context) (step : Step α) : Prop where
  ends : Ends schema before step fun value after => before.AnswersAlike after
    ∧ ∀ later, after.AnswersAlike later → step.run' schema later = (.ok value, later)
  fails : Abandons schema before step fun fault after => before.AnswersAlike after
    ∧ step.run' schema after = (.error fault, after)

/-- The step has the same outcome again in the state that it leaves, and leaves that state. -/
def Repeats {α : Type} (schema : Schema) (before : Context) (step : Step α) : Prop :=
  step.run' schema (step.run' schema before).2 = step.run' schema before

variable {α β : Type} {schema : Schema} {before : Context}

theorem Recurs.answers {step : Step α} (h : Recurs schema before step) :
    before.AnswersAlike (step.run' schema before).2 := by
  cases hrun : step.run' schema before with
  | mk outcome after =>
    cases outcome with
    | error fault => exact (h.fails fault after hrun).1
    | ok value => exact (h.ends value after hrun).1

theorem Recurs.repeats {step : Step α} (h : Recurs schema before step) :
    Repeats schema before step := by
  unfold Repeats
  cases hrun : step.run' schema before with
  | mk outcome after =>
    cases outcome with
    | error fault => exact (h.fails fault after hrun).2
    | ok value => exact (h.ends value after hrun).2 after (.refl after)

theorem steady_pure (value : α) : Steady schema (pure value) := ⟨.ok value, fun _ => rfl⟩

theorem steady_throw (fault : Fault) : Steady schema (throw fault : Step α) :=
  ⟨.error fault, fun _ => rfl⟩

theorem steady_bind {first : Step α} {second : α → Step β} (hfirst : Steady schema first)
    (hsecond : ∀ value, Steady schema (second value)) : Steady schema (first >>= second) := by
  obtain ⟨outcome, hrun⟩ := hfirst
  cases outcome with
  | error fault => exact ⟨.error fault, fun context => by rw [run_bind, hrun]⟩
  | ok value =>
    obtain ⟨result, hresult⟩ := hsecond value
    exact ⟨result, fun context => by rw [run_bind, hrun]; exact hresult context⟩

theorem steady_throw_bind (fault : Fault) (second : α → Step β) :
    Steady schema ((throw fault : Step α) >>= second) :=
  ⟨.error fault, fun _ => rfl⟩

theorem steady_ofExcept (check : Except Fault α) : Steady schema (ofExcept check) := by
  cases check with
  | error fault => exact steady_throw fault
  | ok value => exact steady_pure value

theorem steady_read_bind {second : Schema → Step β} (h : Steady schema (second schema)) :
    Steady schema (read >>= second) := by
  obtain ⟨outcome, hrun⟩ := h
  exact ⟨outcome, hrun⟩

theorem Steady.same {step : Step α} (h : Steady schema step) {outcome : Except Fault α}
    {after : Context} (hrun : step.run' schema before = (outcome, after)) : before = after := by
  obtain ⟨found, hfound⟩ := h
  rw [hfound] at hrun
  cases hrun
  rfl

theorem Steady.recurs {step : Step α} (h : Steady schema step) : Recurs schema before step := by
  obtain ⟨outcome, hrun⟩ := h
  refine ⟨fun value after hbefore => ?_, fun fault after hbefore => ?_⟩
  · rw [hrun before] at hbefore
    cases hbefore
    exact ⟨.refl _, fun later _ => hrun later⟩
  · rw [hrun before] at hbefore
    cases hbefore
    exact ⟨.refl _, hrun _⟩

theorem recurs_pure (value : α) : Recurs schema before (pure value) := (steady_pure value).recurs

theorem recurs_throw (fault : Fault) : Recurs schema before (throw fault : Step α) :=
  (steady_throw fault).recurs

/-- A step that fails and leaves the state fails again. -/
theorem recurs_refused {step : Step α} {fault : Fault}
    (h : step.run' schema before = (.error fault, before)) : Recurs schema before step := by
  refine ⟨fun value after hrun => ?_, fun failed after hrun => ?_⟩
  · rw [h] at hrun
    cases hrun
  · rw [h] at hrun
    cases hrun
    exact ⟨.refl _, h⟩

/-- The state after both steps answers alike to the first one, which is repeated there. -/
theorem recurs_bind {first : Step α} {second : α → Step β} (hfirst : Recurs schema before first)
    (hsecond : ∀ value between, first.run' schema before = (.ok value, between) →
      Recurs schema between (second value)) : Recurs schema before (first >>= second) := by
  refine ⟨fun result after hrun => ?_, fun fault after hrun => ?_⟩
  · obtain ⟨value, between, hone, htwo⟩ := run_bind_ok.mp hrun
    obtain ⟨hbetween, hagain⟩ := hfirst.ends value between hone
    obtain ⟨hafter, hlast⟩ := (hsecond value between hone).ends result after htwo
    refine ⟨hbetween.trans hafter, fun later hlater => ?_⟩
    rw [run_bind, hagain later (hafter.trans hlater)]
    exact hlast later hlater
  · rw [run_bind] at hrun
    cases hone : first.run' schema before with
    | mk outcome between =>
      rw [hone] at hrun
      cases outcome with
      | error failed =>
        cases hrun
        obtain ⟨hafter, hagain⟩ := hfirst.fails fault after hone
        exact ⟨hafter, by rw [run_bind, hagain]⟩
      | ok value =>
        obtain ⟨hbetween, hagain⟩ := hfirst.ends value between hone
        obtain ⟨hafter, hlast⟩ := (hsecond value between hone).fails fault after hrun
        refine ⟨hbetween.trans hafter, ?_⟩
        rw [run_bind, hagain after hafter]
        exact hlast

/-- What is done with the state is the same in every state that answers alike. -/
theorem recurs_get_bind {second : Context → Step β}
    (hsame : ∀ later, before.AnswersAlike later →
      (second later).run' schema later = (second before).run' schema later)
    (h : Recurs schema before (second before)) : Recurs schema before (get >>= second) := by
  have hlater : ∀ later, before.AnswersAlike later →
      (get >>= second).run' schema later = (second before).run' schema later := hsame
  refine ⟨fun value after hrun => ?_, fun fault after hrun => ?_⟩
  · obtain ⟨hafter, hagain⟩ := h.ends value after hrun
    exact ⟨hafter, fun later hanswers =>
      (hlater later (hafter.trans hanswers)).trans (hagain later hanswers)⟩
  · obtain ⟨hafter, hagain⟩ := h.fails fault after hrun
    exact ⟨hafter, (hlater after hafter).trans hagain⟩

theorem recurs_get_refused {second : Context → Step β} {fault : Fault}
    (h : second before = throw fault) : Recurs schema before (get >>= second) := by
  have hrun : (get >>= second : Step β).run' schema before = (.error fault, before) := by
    change (second before).run' schema before = _
    rw [h]
    rfl
  exact recurs_refused hrun

theorem recurs_read_bind {second : Schema → Step β} (h : Recurs schema before (second schema)) :
    Recurs schema before (read >>= second) :=
  ⟨h.ends, h.fails⟩

/-! ## Attributes -/

theorem attributeType_steady (declared : Attribute) :
    Steady schema (attributeType declared) := by
  refine steady_read_bind ?_
  split
  · exact steady_pure _
  · exact steady_throw _

theorem attributeReference_steady (source : PathSource) (type : TypeDescriptor) (name : String)
    (path : DottedName) : Steady schema (attributeReference source type name path) := by
  unfold attributeReference
  split
  · exact steady_throw _
  · exact steady_bind (attributeType_steady _) fun _ => steady_pure _

theorem composites_steady (path : DottedName) (source : PathSource) (type : TypeDescriptor)
    (place : String) (names : List String) :
    Steady schema (composites path source type place names) := by
  induction names generalizing source type place with
  | nil => exact steady_pure _
  | cons name names ih =>
    refine steady_bind (attributeReference_steady source type name path) fun attained => ?_
    refine steady_bind (steady_ofExcept _) fun _ => ?_
    split
    · exact ih _ _ _
    · exact steady_throw _

theorem attributes_steady (path : DottedName) (source : PathSource) (type : TypeDescriptor)
    (names : List String) : Steady schema (attributes path source type names) := by
  induction names generalizing source type with
  | nil => exact steady_pure _
  | cons name names ih =>
    refine steady_bind (attributeReference_steady source type name path) fun attained => ?_
    exact steady_bind (steady_ofExcept _) fun _ => ih _ _

/-- Attributes of an indexed element are taken without joins. -/
theorem navigateIndexed_steady (indexed : IndexedReference) (path : DottedName) :
    Steady schema (navigateIndexed indexed path) := by
  unfold navigateIndexed
  split
  · exact steady_pure _
  · exact steady_bind (attributes_steady path _ _ _) fun reached =>
      steady_bind (attributeReference_steady _ _ _ _) fun _ => steady_pure _

/-! ## Elements -/

/-- The number of what an element narrows was drawn. -/
theorem unwrapped_lt {clean : Prop} (hsound : before.Sound schema clean) {element : FromElement}
    (h : before.Reaches element) : element.unwrapped.uid < before.nextUid :=
  hsound.fresh _ (hsound.closed element h.1 element.unwrapped_mem_chain)

theorem checkReach_recurs {clean : Prop} (hsound : before.Sound schema clean)
    {element : FromElement} (h : before.Reaches element) :
    Recurs schema before (checkReach element) := by
  refine recurs_get_bind (fun later hlater => ?_) ?_
  · have hspace : later.spaceOf? element = before.spaceOf? element :=
      hlater.spaces _ (unwrapped_lt hsound h)
    simp only [hlater.resolver, hspace]
  · split
    · split
      · exact recurs_throw _
      · exact recurs_pure _
    · exact recurs_pure _

/-! ## Implicit joins -/

/-- Variables of registered elements were drawn before, or look like none that is drawn. -/
theorem not_undrawn (hsound : before.Sound schema True) {element : FromElement}
    (h : element ∈ before.registered) {number : Nat} (hle : before.nextAlias ≤ number) :
    element.aliasName ≠ Context.generatedAlias number := by
  intro hname
  obtain ⟨hdrawn, hwritten⟩ := hsound.named trivial element h
  cases hgenerated : element.binding.generated with
  | false => exact hwritten hgenerated number hname
  | true =>
    obtain ⟨other, hlt, hother⟩ := hdrawn hgenerated
    have heq := Context.generatedAlias_injective (hname.symm.trans hother)
    omega

/-- The request of a path: an implicit join under a made-up variable. -/
structure Implicit (request : JoinRequest) : Prop where
  implicit : request.implicit = true
  alias? : request.alias? = none
  narrowed? : request.narrowed? = none

section

variable {request : JoinRequest} {declared : Attribute}

/-- Of an implicit join it is noted that it is remembered. -/
theorem Implicit.newAttributeJoin_eq (h : Implicit request) :
    newAttributeJoin request declared = do
      let type ← attributeType declared
      if type.isBasic then throw (.basicJoin request.path)
      let binding ← newBinding none (joinedType none type)
      modify fun context => context.rememberJoin request.source.uid declared.name binding.uid
      attach request.space (requested request declared type binding)
      return requested request declared type binding := by
  have hnoted : ∀ join, noteJoin request declared join
      = fun context => context.rememberJoin request.source.uid declared.name join := by
    intro join
    unfold noteJoin
    rw [h.implicit, h.narrowed?]
    rfl
  rw [Step.newAttributeJoin_eq, h.alias?, h.narrowed?]
  simp only [hnoted]

theorem ends_madeUp {type : TypeDescriptor} {Q : Binding → Context → Prop}
    (h : ∀ binding : Binding, binding.uid = before.nextUid →
      binding.aliasName = Context.generatedAlias before.nextAlias →
        Q binding { before with
          nextUid := before.nextUid + 1
          nextAlias := before.nextAlias + 1 }) :
    Ends schema before (newBinding none type) Q := by
  refine ends_newBinding fun binding nextAlias hdraws => ?_
  rcases hdraws.drawn with ⟨aliasName, hsome, -⟩ | ⟨-, hname, -, rfl⟩
  · cases hsome
  · exact h binding hdraws.uid hname

theorem newAttributeJoin_anew (h : Implicit request)
    (hunknown : before.implicitJoin? request.source.uid declared.name = none) :
    Ends schema before (newAttributeJoin request declared)
      (before.JoinsAnew request.source.uid declared.name) := by
  rw [h.newAttributeJoin_eq]
  refine ends_bind (ends_attributeType (Q := fun _ after => before = after) fun _ _ => rfl) ?_
  rintro type _ rfl
  dsimp only
  split
  · exact ends_throw_bind _ _
  refine ends_bind (ends_madeUp (Q := fun binding after => binding.uid = before.nextUid
    ∧ binding.aliasName = Context.generatedAlias before.nextAlias
    ∧ after = { before with nextUid := before.nextUid + 1, nextAlias := before.nextAlias + 1 })
    fun binding hnumber hname => ⟨hnumber, hname, rfl⟩) ?_
  rintro binding _ ⟨hnumber, hname, rfl⟩
  refine ends_modify_bind ?_
  refine ends_bind (ends_place (Q := fun _ after => before.JoinsAnew request.source.uid declared.name
    (requested request declared type binding) after) ?_) fun _ _ hanew => ends_pure hanew
  intro place space filled trail hopened hid hput hbind
  obtain ⟨rfl, -⟩ := Trail.bind_ok hbind
  cases space with
  | vacant => cases hput
  | rooted root joins =>
    cases hput
    exact ⟨hunknown, h.implicit, hnumber, hname, rfl, rfl, rfl, rfl, rfl, rfl,
      place, root, joins, hopened, rfl⟩

/-- A join under a variable of its own can be put into a space with a root. -/
theorem attach_completes {F : Fault → Context → Prop} {id : SpaceId} {element : FromElement}
    (hroot : before.levels.HasRoot id)
    (hfree : ∀ existing ∈ before.trail.elements, existing.aliasName ≠ element.aliasName) :
    Abandons schema before (attach id element) F := by
  obtain ⟨place, root, joins, hopened, rfl⟩ := hroot
  refine abandons_bind (ends_updateSpace (Q := fun _ after => after.trail = before.trail)
    fun _ _ => rfl) (abandons_change fun fault hput => ?_) ?_
  · rw [hopened, Levels.update_fill] at hput
    cases hput
  · intro _ between htrail
    refine abandons_registerElement fun existing htaken => ?_
    rw [htrail] at htaken
    have hmem : existing ∈ before.trail.elements :=
      ((List.takeWhile_sublist _).filterMap _).subset (List.mem_of_find?_eq_some htaken)
    have hfind : ((Trail.current before.trail).filterMap Mark.element?).find?
        (fun other => other.aliasName == element.aliasName) = some existing := htaken
    have hname := List.find?_some hfind
    exact absurd (eq_of_beq hname) (hfree existing hmem)

/-- An implicit join is refused before anything is drawn for it. -/
theorem newAttributeJoin_refuses (hsound : before.Sound schema True) (h : Implicit request)
    (hroot : before.levels.HasRoot request.space) :
    Abandons schema before (newAttributeJoin request declared) fun _ after => after = before := by
  rw [h.newAttributeJoin_eq]
  refine abandons_bind (ends_attributeType (Q := fun _ after => before = after) fun _ _ => rfl)
    (abandons_stays (P := fun _ => True) (attributeType_stays declared) (fun _ _ _ => trivial)
      fun _ _ => rfl) ?_
  rintro type _ rfl
  dsimp only
  split
  · exact abandons_throw_bind rfl
  refine abandons_bind (ends_madeUp (Q := fun binding after => binding.uid = before.nextUid
    ∧ binding.aliasName = Context.generatedAlias before.nextAlias
    ∧ after = { before with nextUid := before.nextUid + 1, nextAlias := before.nextAlias + 1 })
    fun binding hnumber hname => ⟨hnumber, hname, rfl⟩)
    (fun fault after hrun => (newBinding_fails (F := fun _ => False) _ _ fault after hrun).elim) ?_
  rintro binding _ ⟨hnumber, hname, rfl⟩
  refine abandons_modify_bind (abandons_bind (Q := fun _ _ => True) (fun _ _ _ => trivial)
    (attach_completes hroot fun existing hmem htaken => ?_) fun _ _ _ => abandons_pure)
  exact not_undrawn hsound (hsound.bound existing hmem).1 (Nat.le_refl _) (htaken.trans hname)

theorem joinableAttribute_steady (request : JoinRequest) :
    Steady schema (joinableAttribute request) := by
  unfold joinableAttribute
  dsimp only
  split
  · exact steady_throw_bind _ _
  split
  · exact steady_throw_bind _ _
  split
  · exact steady_throw _
  · split
    · exact steady_throw_bind _ _
    · exact steady_pure _

/-- The implicit join over an attribute that was declared. -/
def recalledJoin (request : JoinRequest) (declared : Attribute) : Step FromElement := do
  match (← get).implicitJoin? request.source.uid declared.name with
  | some known => return known
  | none => newAttributeJoin request declared

theorem run_recalledJoin_known {context : Context} {known : FromElement}
    (h : context.implicitJoin? request.source.uid declared.name = some known) :
    (recalledJoin request declared).run' schema context = (.ok known, context) := by
  change (match context.implicitJoin? request.source.uid declared.name with
    | some known => return known
    | none => newAttributeJoin request declared : Step FromElement).run' schema context = _
  rw [h]
  rfl

theorem run_recalledJoin_unknown {context : Context}
    (h : context.implicitJoin? request.source.uid declared.name = none) :
    (recalledJoin request declared).run' schema context
      = (newAttributeJoin request declared).run' schema context := by
  change (match context.implicitJoin? request.source.uid declared.name with
    | some known => return known
    | none => newAttributeJoin request declared : Step FromElement).run' schema context = _
  rw [h]

/-- An implicit join is made once and found from then on. -/
theorem recalledJoin_recurs (hsound : before.Sound schema True) (h : Implicit request)
    (hroot : before.levels.HasRoot request.space) (declared : Attribute) :
    Recurs schema before (recalledJoin request declared) := by
  cases hknown : before.implicitJoin? request.source.uid declared.name with
  | some known =>
    refine recurs_get_bind (fun later hlater => ?_) ?_
    · rw [hlater.joins _ _ _ hknown, hknown]
    · rw [hknown]
      exact recurs_pure known
  | none =>
    refine ⟨fun join after hrun => ?_, fun fault after hrun => ?_⟩
    · rw [run_recalledJoin_unknown hknown] at hrun
      have hanew := newAttributeJoin_anew h hknown join after hrun
      exact ⟨hanew.answers hsound.drawn, fun later hlater =>
        run_recalledJoin_known (hlater.joins _ _ _ hanew.recalled)⟩
    · have hsame : after = before := by
        rw [run_recalledJoin_unknown hknown] at hrun
        exact newAttributeJoin_refuses hsound h hroot fault after hrun
      subst hsame
      exact ⟨.refl _, hrun⟩

theorem attributeJoin_recurs (hsound : before.Sound schema True) (h : Implicit request)
    (hroot : before.levels.HasRoot request.space) :
    Recurs schema before (attributeJoin request) := by
  have hchecked : Steady schema (joinableAttribute request) := joinableAttribute_steady request
  refine recurs_bind hchecked.recurs fun declared between hrun => ?_
  obtain rfl := hchecked.same hrun
  rw [if_pos h.implicit]
  exact recalledJoin_recurs hsound h hroot declared

end

section

variable (hsound : before.Sound schema True)
include hsound

theorem joinBeside_recurs {source : FromElement} (hsource : before.Reaches source)
    (declared? : Option Attribute) (place : String) :
    Recurs schema before (joinBeside source declared? place) := by
  refine recurs_get_bind (fun later hlater => ?_) ?_
  · have hspace : later.spaceOf? source = before.spaceOf? source :=
      hlater.spaces _ (unwrapped_lt hsound hsource)
    simp only [hlater.resolver, hspace]
  · dsimp only
    split
    · exact (steady_throw_bind _ _).recurs
    split
    · exact recurs_throw _
    · rename_i id hid
      exact attributeJoin_recurs hsound ⟨rfl, rfl, rfl⟩ (Levels.hasRoot_of_spaceOf? hid)

theorem implicitJoin_recurs {source : FromElement} (hsource : before.Reaches source)
    (name place : String) (last : Bool) :
    Recurs schema before (implicitJoin source name place last) := by
  unfold implicitJoin
  dsimp only
  split
  · refine recurs_bind (attributeType_steady _).recurs fun type between hrun => ?_
    obtain rfl := (attributeType_steady _).same hrun
    refine recurs_bind (steady_ofExcept _).recurs fun _ between hrun => ?_
    obtain rfl := (steady_ofExcept _).same hrun
    exact joinBeside_recurs hsound hsource _ _
  · exact joinBeside_recurs hsound hsource _ _

omit hsound in
/-- Elements that are reached by one join after the other. -/
theorem recurs_next {first : Step FromElement} {next : FromElement → Step α}
    (hfirst : Recurs schema before first) (hfinds : Finds schema True before first)
    (hnext : ∀ element between, between.Sound schema True → between.Reaches element →
      Recurs schema between (next element)) : Recurs schema before (first >>= next) := by
  refine recurs_bind hfirst fun element between hrun => ?_
  obtain ⟨hadvances, hreaches⟩ := hfinds element between hrun
  exact hnext element between hadvances.sound hreaches

omit hsound in
theorem joinAlong_recurs (hsound : before.Sound schema True) {source : FromElement}
    (hsource : before.Reaches source) (place : String) (names : List String) :
    Recurs schema before (joinAlong source place names) := by
  induction names generalizing before source place with
  | nil => exact recurs_pure _
  | cons name names ih =>
    exact recurs_next (implicitJoin_recurs hsound hsource name _ _)
      (implicitJoin_finds hsound hsource name _ _)
      fun element between hbetween hreaches => ih hbetween hreaches _

omit hsound in
theorem joinThrough_recurs (hsound : before.Sound schema True) {source : FromElement}
    (hsource : before.Reaches source) (names : List String) :
    Recurs schema before (joinThrough source names) := by
  induction names generalizing before source with
  | nil => exact recurs_pure _
  | cons name names ih =>
    exact recurs_next (implicitJoin_recurs hsound hsource name _ _)
      (implicitJoin_finds hsound hsource name _ _)
      fun element between hbetween hreaches => ih hbetween hreaches

/-- A variable that stands for an element is not made up on the way. -/
theorem not_drew {name : String} {element : FromElement}
    (h : before.trail.element? name = some element) (after : Context) :
    ¬before.Drew after name := by
  rintro ⟨number, hle, -, hname⟩
  have hmem := (hsound.bound element (Trail.element?_some h)).1
  have hfind : before.trail.elements.find? (fun other => other.aliasName == name)
      = some element := h
  have halias := List.find?_some hfind
  exact not_undrawn hsound hmem hle ((eq_of_beq halias).trans hname)

theorem fromElementParts_recurs (parts : List String) (path : DottedName) :
    Recurs schema before (fromElementParts parts path) := by
  unfold fromElementParts
  split
  · exact recurs_throw _
  · rename_i first names
    cases hfirst : before.trail.element? first with
    | none =>
      exact recurs_get_refused (by rw [hfirst])
    | some element =>
      have hreaches := element?_reaches hsound hfirst
      refine recurs_get_bind (fun later hlater => ?_) ?_
      · rw [hlater.names first (not_drew hsound hfirst later)]
      · rw [hfirst]
        refine recurs_bind (checkReach_recurs hsound hreaches) fun _ between hrun => ?_
        obtain rfl := ends_checkReach (Q := fun _ after => before = after) rfl _ _ hrun
        exact joinAlong_recurs hsound hreaches _ _

theorem navigate_recurs {element : FromElement} (helement : before.Reaches element)
    (names : List String) (path : DottedName) :
    Recurs schema before (navigate element names path) := by
  unfold navigate
  refine recurs_bind (checkReach_recurs hsound helement) fun _ between hrun => ?_
  obtain rfl := ends_checkReach (Q := fun _ after => before = after) rfl _ _ hrun
  split
  · exact recurs_pure _
  · refine recurs_get_bind (fun later hlater => by rw [hlater.resolver]) ?_
    dsimp only
    split
    · exact (steady_bind (composites_steady path _ _ _ _) fun reached =>
        steady_bind (attributeReference_steady _ _ _ _) fun _ => steady_pure _).recurs
    · refine recurs_bind (joinThrough_recurs hsound helement _) fun source between _ => ?_
      exact (steady_bind (attributeReference_steady _ _ _ _) fun _ => steady_pure _).recurs

end

/-- What a path is read as, by what its first part is bound to and which element declares it. -/
def pathReading (path : DottedName) (first : String) (names : List String)
    (bound? : Option FromElement) (owner : Except Fault (Option FromElement)) : Step Expression := do
  let schema ← read
  match bound? with
  | some element => navigate element names path
  | none =>
    match schema.entity? path.text with
    | some entity => return .entityType entity
    | none =>
      match constant? schema path with
      | some constant => return constant
      | none =>
        match ← ofExcept owner with
        | some element => navigate element (first :: names) path
        | none => throw (.uninterpretedPath path)

theorem run_path {dotted : DottedName} {first : String} {names : List String}
    (h : dotted.parts = first :: names) (context : Context) :
    (path dotted).run' schema context
      = (pathReading dotted first names (context.trail.element? first)
          (bareOwner first context.trail.frames)).run' schema context := by
  rw [path, h]
  rfl

theorem pathReading_recurs (hsound : before.Sound schema True) (path : DottedName) (first : String)
    (names : List String) :
    Recurs schema before (pathReading path first names (before.trail.element? first)
      (bareOwner first before.trail.frames)) := by
  refine recurs_read_bind ?_
  split
  · rename_i element helement
    exact navigate_recurs hsound (element?_reaches hsound helement) _ _
  split
  · exact recurs_pure _
  split
  · exact recurs_pure _
  refine recurs_bind (steady_ofExcept _).recurs fun found between hrun => ?_
  obtain rfl := (steady_ofExcept _).same hrun
  have howner : bareOwner first before.trail.frames = .ok found :=
    ends_ofExcept (Q := fun value _ => bareOwner first before.trail.frames = .ok value)
      (fun _ h => h) _ _ hrun
  split
  · rename_i element
    obtain ⟨frame, hframe, hmem⟩ := bareOwner_mem howner
    exact navigate_recurs hsound
      (hsound.bound element (Trail.frames_subset frame hframe hmem)) _ _
  · exact recurs_throw _

/-- A path is read again without effect, unless it starts with a variable that the first reading
made up. -/
theorem path_repeats (hsound : before.Sound schema True) (dotted : DottedName)
    (hfirst : ∀ first ∈ dotted.parts.head?,
      ¬before.Drew ((path dotted).run' schema before).2 first) :
    Repeats schema before (path dotted) := by
  cases hparts : dotted.parts with
  | nil =>
    unfold path
    rw [hparts]
    exact (steady_throw _).recurs.repeats
  | cons first names =>
    have hrecurs := pathReading_recurs hsound dotted first names
    have hdrew := hfirst first (by rw [hparts]; rfl)
    unfold Repeats
    rw [run_path hparts before] at hdrew ⊢
    rw [run_path hparts, hrecurs.answers.names first hdrew, hrecurs.answers.owners]
    exact hrecurs.repeats

end Step

/-- In a state that is met on the way, a path is read again without effect: as a path that has to end
in an element, after an indexed element, and as any other path that does not start with a variable
which its first reading made up. -/
theorem Context.Underway.paths_repeat {schema : Schema} {before : Context}
    (h : before.Underway schema) (dotted : DottedName) :
    ((∀ first ∈ dotted.parts.head?,
        ¬before.Drew ((Step.path dotted).run' schema before).2 first) →
      Step.Repeats schema before (Step.path dotted))
    ∧ Step.Repeats schema before (Step.fromElementPath dotted)
    ∧ ∀ indexed, Step.Repeats schema before (Step.navigateIndexed indexed dotted) :=
  ⟨Step.path_repeats h.sound dotted,
    (Step.fromElementParts_recurs h.sound dotted.parts dotted).repeats,
    fun indexed => (Step.navigateIndexed_steady indexed dotted).recurs.repeats⟩

/-! ## Paths from one root -/

/-- The root of the only space of a query. -/
def onlyRoot (written : Phrase.Root) : Step FromElement := do
  Step.root (← Step.openSpace) written

theorem underway_onlyRoot {schema : Schema} {written : Phrase.Root} {element : FromElement}
    {after : Context} (hplain : Phrase.PlainVariable written.alias?)
    (hrun : (onlyRoot written).run' schema Context.empty.openLevel = (.ok element, after)) :
    after.Underway schema := by
  obtain ⟨id, between, hopen, hroot⟩ := Step.run_bind_ok.mp hrun
  have hbetween := (Context.Underway.level .empty).step .openSpace hopen
  cases hopen
  exact hbetween.step (.root rfl hplain) hroot

/-- A variable that begins with another sign than made-up ones is plain. -/
theorem plainVariable_of_head {name : String} (h : name.toList.head? ≠ some '<') :
    Phrase.PlainVariable (some name) := by
  rintro _ ⟨⟩ number rfl
  obtain ⟨rest, hsign⟩ := Phrase.generatedAlias_toList number
  exact h (by rw [hsign]; rfl)

/-- The libraries `l`. -/
def libraryRoot : Phrase.Root := ⟨⟨["Library"]⟩, some "l"⟩

def frontLabel : DottedName := ⟨["l", "front", "label"]⟩

/-- The label of the shelf in front is found with one new join, and with none when it is looked for
again. -/
theorem paths_repeat_frontLabel :
    ∃ before : Context, before.Underway shelving.schema
      ∧ Step.Repeats shelving.schema before (Step.path frontLabel)
      ∧ ((Step.path frontLabel).run' shelving.schema before).2.nextUid = before.nextUid + 1 := by
  obtain ⟨element, before, hrun⟩ : ∃ element before,
      (onlyRoot libraryRoot).run' shelving.schema Context.empty.openLevel
        = (.ok element, before) := ⟨_, _, rfl⟩
  have hbefore : before.Underway shelving.schema :=
    underway_onlyRoot (plainVariable_of_head (by decide)) hrun
  have hbound : before.trail.element? "l" = some element := by
    cases hrun
    rfl
  refine ⟨before, hbefore, (hbefore.paths_repeat frontLabel).1 ?_, ?_⟩
  · rintro first ⟨⟩
    exact Step.not_drew hbefore.sound hbound _
  · have hafter : ((onlyRoot libraryRoot).run' shelving.schema Context.empty.openLevel).2
        = before := by rw [hrun]
    rw [← hafter]
    decide +kernel

/-- Nodes have an attribute whose name is like the second made-up variable. -/
def linking : Metamodel where
  entities :=
    [⟨"Node", [⟨"<gen:1>", .entity "Node"⟩, ⟨"next", .entity "Node"⟩, ⟨"size", .basic .integer⟩]⟩]

/-- The nodes `p`. -/
def nodeRoot : Phrase.Root := ⟨⟨["Node"]⟩, some "p"⟩

def linkedSize : DottedName := ⟨["<gen:1>", "next", "size"]⟩

/-- The path is read as a bare attribute first, which makes a variable up that is called like it;
then the path starts with that variable, and another join is made. -/
theorem linkedSize_joins_again :
    ∃ before : Context, before.Underway linking.schema
      ∧ ¬Step.Repeats linking.schema before (Step.path linkedSize) := by
  obtain ⟨element, before, hrun⟩ : ∃ element before,
      (onlyRoot nodeRoot).run' linking.schema Context.empty.openLevel
        = (.ok element, before) := ⟨_, _, rfl⟩
  refine ⟨before, underway_onlyRoot (plainVariable_of_head (by decide)) hrun, fun hrepeats => ?_⟩
  have hafter : before = ((onlyRoot nodeRoot).run' linking.schema Context.empty.openLevel).2 := by
    rw [hrun]
  subst hafter
  have huids := congrArg (fun result => result.2.nextUid) hrepeats
  exact absurd huids (by decide +kernel)

end EntityQuery.Interpretation

import EntityQuery.Proofs.BuiltCalls
import EntityQuery.Proofs.RestoredLevels
import EntityQuery.Proofs.TracedPhrases

/-!
# What paths are traced to

The implicit join over an attribute is the one that is remembered, or it is made and remembered. So
a path leads over implicit joins from the element that its variable denotes, whichever path made
them first.

* `Context.declared`, `Context.Stands`: a sound state with the written elements that are visible.
* `variablesMotion`: all steps but those of a from clause keep the written elements.
* `Step.implicitJoin_step`, `Step.joinThrough_way`: the joins of a path.
* `Step.path_leads`, `Step.indexed_leads`, `Step.pathOrCall_leads`: paths as expressions.
-/

namespace EntityQuery

theorem FromElement.source_mem_chain {join source : FromElement} {name : String}
    (h : join.implicitStep? = some (source, name)) : source ∈ join.chain := by
  cases join with
  | attributeJoin binding start through =>
    simp only [implicitStep?] at h
    split at h
    · cases h
      exact List.mem_cons_of_mem _ source.mem_chain_self
    · cases h
  | _ => cases h

namespace Interpretation

open Resolved (AttributeReference Expression IndexedReference PathSource)

/-! ## Written elements -/

/-- The written elements that are bound in any open scope, newest first. -/
def Context.declared (context : Context) : List FromElement :=
  context.trail.elements.filter FromElement.isDeclared

/-- Scopes and resolvers are kept, the current scope apart, and no written element is bound. -/
def Context.KeepsVariables (before after : Context) : Prop :=
  Context.Proceeds Levels.Keep before after ∧ after.declared = before.declared

/-- Resolvers and the visible written elements are the same. -/
structure Context.SameVariables (before after : Context) : Prop where
  resolvers : after.resolvers = before.resolvers
  declared : after.declared = before.declared

theorem Context.KeepsVariables.same {before after : Context} (h : before.KeepsVariables after) :
    before.SameVariables after :=
  ⟨h.1.resolvers, h.2⟩

/-- An element that is bound is seen from then on if it was written. -/
theorem Context.declared_bind {context : Context} {element : FromElement} {trail : Trail}
    (hbind : context.trail.bind element = .ok trail) :
    { context with trail }.declared = element.seen context.declared := by
  obtain ⟨rfl, -⟩ := Trail.bind_ok hbind
  change (element :: context.trail.elements).filter FromElement.isDeclared = _
  rw [List.filter_cons]
  rfl

theorem FromElement.seen_of_generated {element : FromElement}
    (h : element.binding.generated = true) (visible : List FromElement) :
    element.seen visible = visible := by
  simp [FromElement.seen, FromElement.isDeclared, h]

theorem variablesMotion (schema : Schema) (treat : DottedName → Prop) :
    Motion schema treat Context.KeepsVariables (Context.Proceeds Levels.KeepBelow) :=
  let keeping := keepingMotion schema treat
  { refl := fun context => ⟨keeping.refl context, rfl⟩
    trans := fun _ _ _ h h' => ⟨keeping.trans _ _ _ h.1 h'.1, h'.2.trans h.2⟩
    within := fun _ _ h => keeping.within _ _ h.1
    transWithin := keeping.transWithin
    depth := keeping.depth
    idle := fun context _ _ _ _ _ _ => ⟨keeping.idle context _ _ _ _ _ _, rfl⟩
    register := fun context element h => ⟨keeping.register context element h, rfl⟩
    bind := fun context element trail hgenerated hbind =>
      ⟨keeping.bind context element trail hgenerated hbind,
        (Context.declared_bind hbind).trans (FromElement.seen_of_generated hgenerated _)⟩
    joinImplicitly := fun context place root joins binding source join himplicit hgenerated hopened
        hcontains =>
      ⟨keeping.joinImplicitly context place root joins binding source join himplicit hgenerated
        hopened hcontains, rfl⟩
    resolve := fun before after resolver h => ⟨keeping.resolve before after resolver h.1, h.2⟩
    nest := fun before after h =>
      ⟨keeping.nest before after h, by rw [Context.declared, h.leave.trail]; rfl⟩
    openSpace := keeping.openSpace
    declare := keeping.declare
    fill := keeping.fill
    select := keeping.select }

/-- Result variables are no elements. -/
theorem variablesSelecting : Selecting Context.KeepsVariables Context.KeepsVariables where
  within _ _ h := h
  trans _ _ _ h h' := ⟨h.1.trans Levels.Keep.trans h'.1, h'.2.trans h.2⟩
  select _ _ := ⟨.marked (.refl _) rfl, rfl⟩

/-- A sound state in which the elements of a list are the written ones that are visible; paths make
no joins only in the clauses of a bulk statement. -/
structure Context.Stands (schema : Schema) (bulk : Bool) (visible : List FromElement)
    (context : Context) : Prop where
  sound : context.Sound schema False
  declared : context.declared = visible
  resolver : context.resolver = .bulk → bulk = true

namespace Context.Stands

variable {schema : Schema} {bulk : Bool} {visible : List FromElement} {before after : Context}

theorem same (h : before.Stands schema bulk visible) (hsame : before.SameVariables after)
    (hsound : after.Sound schema False) : after.Stands schema bulk visible where
  sound := hsound
  declared := hsame.declared.trans h.declared
  resolver := by
    rw [Context.resolver, hsame.resolvers]
    exact h.resolver

theorem makesJoins (h : before.Stands schema bulk visible) (hbulk : bulk = false) :
    before.resolver ≠ .bulk := by
  intro hresolver
  have hclause := h.resolver hresolver
  rw [hbulk] at hclause
  cases hclause

/-- The element that a variable stands for is denoted by it. -/
theorem denoted (h : before.Stands schema bulk visible) {name : String} {element : FromElement}
    (hfound : before.trail.element? name = some element) : element.DenotedBy visible name := by
  obtain ⟨hname, newer, older, hsplit, hnewer⟩ := List.find?_eq_some_iff_append.mp hfound
  cases hdeclared : element.isDeclared with
  | true =>
    refine .inl ?_
    have hvisible : visible = newer.filter FromElement.isDeclared
        ++ element :: older.filter FromElement.isDeclared := by
      rw [← h.declared, Context.declared, Trail.elements, hsplit, List.filter_append,
        List.filter_cons, if_pos hdeclared]
    rw [hvisible]
    refine List.find?_eq_some_iff_append.mpr ⟨hname, _, _, rfl, fun other hother => ?_⟩
    exact hnewer other (List.mem_of_mem_filter hother)
  | false =>
    have hregistered := (h.sound.bound element (Trail.element?_some hfound)).1
    obtain ⟨number, halias⟩ := h.sound.madeUp element hregistered hdeclared
    have hsame : element.aliasName = name := eq_of_beq hname
    exact .inr ⟨⟨number, hsame ▸ halias⟩, hsame⟩

/-- A name that no element is bound to is no visible variable. -/
theorem undenoted (h : before.Stands schema bulk visible) {name : String}
    (hnone : before.trail.element? name = none) :
    visible.find? (fun other => other.aliasName == name) = none := by
  rw [← h.declared]
  refine List.find?_eq_none.mpr fun other hother => ?_
  exact List.find?_eq_none.mp hnone other (List.mem_of_mem_filter hother)

/-- What paths may refer to does not matter otherwise. -/
theorem under (h : before.Stands schema bulk visible) {resolver : Resolver}
    (hresolver : resolver = .bulk → bulk = true) :
    (before.pushResolver resolver).Stands schema bulk visible where
  sound := (h.sound.idle _ before.style? before.advisories).sound
  declared := h.declared
  resolver := hresolver

end Context.Stands

namespace Step

/-- A step makes a tree in which the paths of a phrase are traced, and leaves the written elements
as they are. -/
def Tracing {α : Type} (bulk : Bool) (visible : List FromElement) (traces : α → Prop)
    (schema : Schema) (before : Context) (step : Step α) : Prop :=
  Ends schema before step fun value after => after.Stands schema bulk visible ∧ traces value

variable {schema : Schema} {bulk : Bool} {visible : List FromElement} {before : Context}

/-! ## Implicit joins -/

section

variable {clean : Prop} {source : FromElement}

theorem newAttributeJoin_requested (request : JoinRequest) (declared : Attribute) :
    Ends schema before (newAttributeJoin request declared) fun join _ =>
      ∃ type binding, join = requested request declared type binding := by
  rw [newAttributeJoin_eq]
  refine ends_bind (ends_attributeType (Q := fun _ _ => True) fun _ _ => trivial) ?_
  rintro type between -
  dsimp only
  split
  · exact ends_throw_bind _ _
  refine ends_bind (Q := fun _ _ => True) (fun _ _ _ => trivial) ?_
  rintro binding drawn -
  exact ends_modify_bind (ends_bind (Q := fun _ _ => True) (fun _ _ _ => trivial)
    fun _ _ _ => ends_pure ⟨type, binding, rfl⟩)

/-- The join that is found for a source and an attribute is the implicit join over it. -/
theorem implicitJoin?_step (hsound : before.Sound schema clean) (hsource : before.Reaches source)
    {name : String} {join : FromElement}
    (h : before.implicitJoin? source.uid name = some join) :
    join.implicitStep? = some (source, name) := by
  obtain ⟨entry, hentry, hfind⟩ := Option.bind_eq_some_iff.mp h
  obtain ⟨other, hother, huid, start, hstep, hstart⟩ := hsound.recalls.found hentry
  have hjoinUid := List.find?_some hfind
  rw [beq_iff_eq] at hjoinUid
  obtain rfl := hsound.unique other hother join (List.mem_of_find?_eq_some hfind)
    (huid.trans hjoinUid.symm)
  have hregistered := hsound.closed other hother (FromElement.source_mem_chain hstep)
  obtain rfl := hsound.unique start hregistered source hsource.1 hstart
  exact hstep

/-- An implicit join leads through the attribute that is asked for, whether it is made now or was
made before. -/
theorem attributeJoin_step (hsound : before.Sound schema clean) {request : JoinRequest}
    (hsource : before.Reaches request.source) (himplicit : request.implicit = true) :
    Ends schema before (attributeJoin request) fun join _ =>
      ∃ declared, request.declared? = some declared
        ∧ join.implicitStep? = some (request.source, declared.name) := by
  refine ends_bind (ends_joinableAttribute (Q := fun declared after => before = after
    ∧ request.declared? = some declared) fun _ hsome _ => ⟨rfl, hsome⟩) ?_
  rintro declared after ⟨rfl, hdeclared⟩
  rw [if_pos himplicit]
  refine ends_get_bind ?_
  split
  · rename_i known hknown
    exact ends_pure ⟨declared, hdeclared, implicitJoin?_step hsound hsource hknown⟩
  · refine ends_mono (newAttributeJoin_requested request declared) ?_
    rintro join after ⟨type, binding, rfl⟩
    exact ⟨declared, hdeclared, by simp [requested, FromElement.implicitStep?, himplicit]⟩

theorem joinBeside_step (hsound : before.Sound schema clean) (hsource : before.Reaches source)
    (name place : String) :
    Ends schema before (joinBeside source (source.type.declared? name) place) fun join _ =>
      join.implicitStep? = some (source, name) := by
  refine ends_get_bind ?_
  dsimp only
  split
  · exact ends_throw_bind _ _
  split
  · exact ends_throw _
  refine ends_mono (attributeJoin_step hsound hsource rfl) ?_
  rintro join after ⟨declared, hdeclared, hstep⟩
  rw [TypeDescriptor.declared?_name hdeclared] at hstep
  exact hstep

theorem implicitJoin_step (hsound : before.Sound schema clean) (hsource : before.Reaches source)
    (name place : String) (last : Bool) :
    Ends schema before (implicitJoin source name place last) fun join _ =>
      join.implicitStep? = some (source, name) := by
  unfold implicitJoin
  dsimp only
  split
  · refine ends_bind (ends_attributeType (Q := fun _ after => before = after) fun _ _ => rfl) ?_
    rintro type _ rfl
    refine ends_bind (ends_ofExcept (Q := fun _ after => before = after) fun _ _ => rfl) ?_
    rintro _ _ rfl
    exact joinBeside_step hsound hsource name place
  · exact joinBeside_step hsound hsource name place

/-- The joins that a path goes through are implicit ones, one over each name. -/
theorem joinThrough_way (hsound : before.Sound schema clean) (hsource : before.Reaches source)
    (names : List String) :
    Ends schema before (joinThrough source names) fun element _ =>
      source.ImplicitWay names element := by
  induction names generalizing before source with
  | nil => exact ends_pure rfl
  | cons name names ih =>
    refine ends_bind (ends_both (implicitJoin_finds hsound hsource name _ false)
      (implicitJoin_step hsound hsource name _ false)) ?_
    rintro join between ⟨⟨hadvances, hjoin⟩, hstep⟩
    exact ends_mono (ih hadvances.sound hjoin) fun _ _ hway => ⟨join, hstep, hway⟩

end

/-! ## Paths as expressions -/

theorem attributeReference_form (source : PathSource) (type : TypeDescriptor) (name : String)
    (path : DottedName) :
    Ends schema before (attributeReference source type name path) fun attained _ =>
      ∃ declared found, attained = .mk source declared found ∧ declared.name = name := by
  unfold attributeReference
  split
  · exact ends_throw _
  · rename_i declared hdeclared
    refine ends_bind (Q := fun _ _ => True) (fun _ _ _ => trivial) fun found _ _ => ?_
    exact ends_pure ⟨declared, found, rfl, TypeDescriptor.declared?_name hdeclared⟩

/-- Names lead from an element over implicit joins, outside the clauses of bulk statements. -/
theorem navigate_leads (hsound : before.Sound schema False) (hbulk : before.resolver ≠ .bulk)
    {element : FromElement} (helement : before.Reaches element) (names : List String)
    (path : DottedName) :
    Ends schema before (navigate element names path) fun value _ =>
      value.LedFrom element names := by
  unfold navigate
  refine ends_bind (ends_checkReach (Q := fun _ after => before = after) rfl) ?_
  rintro _ _ rfl
  split
  · rename_i hnone
    exact ends_pure (Expression.ledFrom_nil hnone)
  · rename_i last hlast
    refine ends_get_bind ?_
    dsimp only
    rw [if_neg hbulk]
    refine ends_bind (joinThrough_way hsound helement names.dropLast) fun source _ hway => ?_
    refine ends_bind (attributeReference_form (.element source) _ last path) ?_
    rintro attained _ ⟨declared, type, rfl, hname⟩
    exact ends_pure (Expression.ledFrom_last hlast hname hway)

theorem path_leads (hstands : before.Stands schema bulk visible) (hbulk : bulk = false)
    (dotted : DottedName) :
    Ends schema before (path dotted) fun value _ => dotted.LeadsTo visible value := by
  have hresolver := hstands.makesJoins hbulk
  unfold path
  split
  · exact ends_throw _
  rename_i first names hparts
  simp only [DottedName.leadsTo_cons hparts]
  refine ends_get_bind (ends_read_bind ?_)
  split
  · rename_i element helement
    refine ends_mono (navigate_leads hstands.sound hresolver
      (element?_reaches hstands.sound helement) names dotted) fun value _ hvalue => ?_
    exact .inl ⟨element, hstands.denoted helement, hvalue⟩
  rename_i hunbound
  have hnone := hstands.undenoted hunbound
  split
  · exact ends_pure (.inr ⟨hnone, fun _ h => by cases h⟩)
  split
  · rename_i constant hconstant
    obtain ⟨owner, member, type, rfl⟩ := constant?_form hconstant
    exact ends_pure (.inr ⟨hnone, fun _ h => by cases h⟩)
  refine ends_bind (ends_ofExcept (Q := fun found after => before = after
    ∧ ∀ element, found = some element → before.Reaches element) ?_) ?_
  · intro found hfound
    refine ⟨rfl, fun element helement => ?_⟩
    subst helement
    obtain ⟨frame, hframe, hmem⟩ := bareOwner_mem hfound
    exact hstands.sound.bound element (Trail.frames_subset frame hframe hmem)
  rintro found _ ⟨rfl, hfound⟩
  split
  · rename_i owner
    refine ends_mono (navigate_leads hstands.sound hresolver (hfound owner rfl) dotted.parts
      dotted) fun value _ hvalue => .inr ⟨hnone, fun _ _ => ⟨owner, ?_⟩⟩
    rw [hparts] at hvalue
    exact hvalue
  · exact ends_throw _

/-- A function without parentheses is a single name that no element is bound to. -/
theorem niladicName?_unbound {trail : Trail} {dotted : DottedName} {name : String}
    (h : niladicName? trail dotted = some name) :
    dotted.parts = [dotted.first] ∧ trail.element? dotted.first = none := by
  simp only [niladicName?, Bool.and_eq_true] at h
  split at h
  · rename_i hcall
    obtain ⟨⟨hsimple, -⟩, hunbound⟩ := hcall
    refine ⟨?_, by simpa using hunbound⟩
    obtain ⟨part, hpart⟩ := List.length_eq_one_iff.mp (eq_of_beq hsimple)
    simp [DottedName.first, hpart]
  · cases h

theorem pathOrCall_leads (hstands : before.Stands schema bulk visible) (hbulk : bulk = false)
    (dotted : DottedName) :
    Ends schema before (pathOrCall dotted) fun value _ => dotted.LeadsTo visible value := by
  refine ends_get_bind ?_
  split
  · rename_i name hname
    refine ends_pure ?_
    obtain ⟨hparts, hunbound⟩ := niladicName?_unbound hname
    rw [DottedName.leadsTo_cons hparts]
    exact .inr ⟨hstands.undenoted hunbound, fun _ h => by cases h⟩
  · exact path_leads hstands hbulk dotted

/-! ## Behind an index -/

theorem attributes_indexed (path : DottedName) (source : PathSource) (type : TypeDescriptor)
    (names : List String) :
    Ends schema before (attributes path source type names) fun reached _ =>
      reached.1.indexed? = source.indexed? := by
  induction names generalizing before source type with
  | nil => exact ends_pure rfl
  | cons name names ih =>
    refine ends_bind (attributeReference_form source type name path) ?_
    rintro attained _ ⟨declared, found, rfl, -⟩
    refine ends_bind (ends_ofExcept (Q := fun _ _ => True) fun _ _ => trivial) fun _ _ _ => ?_
    exact ih (.reference (.mk source declared found)) _

theorem navigateIndexed_indexed (collection : AttributeReference) (index : Expression)
    (type : TypeDescriptor) (path : DottedName) :
    Ends schema before (navigateIndexed (.mk collection index type) path) fun value _ =>
      value.indexed? = some collection := by
  unfold navigateIndexed
  split
  · exact ends_pure rfl
  · refine ends_bind (attributes_indexed path (.indexed (.mk collection index type)) _ _)
      fun reached _ hreached => ?_
    refine ends_bind (attributeReference_form reached.1 _ _ _) ?_
    rintro attained _ ⟨declared, found, rfl, -⟩
    exact ends_pure hreached

/-- The collection that an index selects in is what the path in front stands for. -/
theorem indexed_leads (hstands : before.Stands schema bulk visible) (base : DottedName)
    (index : Expression) (remainder : Option DottedName) :
    Ends schema before (indexed base index remainder) fun value _ =>
      ∃ collection, value.indexed? = some collection
        ∧ (bulk = false → base.LeadsTo visible (.reference collection)) := by
  have hpath : Ends schema before (path base) fun value _ =>
      bulk = false → base.LeadsTo visible value :=
    fun value after hrun hbulk => path_leads hstands hbulk base value after hrun
  refine ends_bind hpath fun value _ hvalue => ?_
  split
  · rename_i collection
    split
    · split
      · exact ends_pure ⟨collection, rfl, hvalue⟩
      · refine ends_under (ends_mono (navigateIndexed_indexed collection index _ _) ?_)
        exact fun _ _ hindexed => ⟨collection, hindexed, hvalue⟩
    · exact ends_throw _
  · exact ends_throw _

end Step
end Interpretation
end EntityQuery

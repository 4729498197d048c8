import EntityQuery.Proofs.FailedPaths
import EntityQuery.Proofs.MovedQueries
import EntityQuery.Proofs.WellTyped

/-!
# Elements that are not finished

A step that fails is not undone, since the first fault ends the interpretation. Making an element
can fail before the element is put into its space, and then nothing that can be looked up has
changed: only numbers and made-up variables were drawn. It can also fail afterwards, when the
variable of the element turns out to be bound in the current scope, and then the element stays in
its space and stays registered under its number, without being bound.

* `ElementRequest`: the ways in which an element is asked for.
* `Context.Untouched`, `Context.Strands`: what a request leaves when it fails.
* `Context.Drawn`: the numbers in a state were drawn from it, so the next one is not in use.
* `elementRequest_abandoned`: which of the two a failing request leaves.
-/

namespace EntityQuery.Interpretation

/-! ## Requests -/

/-- An element that is asked for in a space. -/
inductive ElementRequest where
  | root (space : SpaceId) (entity : EntityReference) (alias? : Option String)
  | crossJoin (space : SpaceId) (entity : EntityReference) (alias? : Option String)
  | entityJoin (space : SpaceId) (alias? : Option String) (entity : EntityReference)
    (joinType : JoinType)
  | attributeJoin (request : JoinRequest)

namespace ElementRequest

def step : ElementRequest → Step FromElement
  | root space entity alias? => Step.makeRoot space entity alias?
  | crossJoin space entity alias? => Step.crossJoin space entity alias?
  | entityJoin space alias? entity joinType => Step.entityJoin space alias? entity joinType
  | attributeJoin request => Step.attributeJoin request

def space : ElementRequest → SpaceId
  | root space _ _ => space
  | crossJoin space _ _ => space
  | entityJoin space _ _ _ => space
  | attributeJoin request => request.space

/-- The change of the space: the element becomes its root or its last join. -/
def put (request : ElementRequest) (element : FromElement) (open? : OpenSpace) :
    Except Fault OpenSpace :=
  match request with
  | root _ _ _ => open?.setRoot element
  | crossJoin _ _ _ => open?.addJoin element
  | entityJoin _ _ _ _ => open?.addJoin element
  | attributeJoin _ => open?.addJoin element

/-- The implicit join of a source over an attribute is asked for. -/
def Asks (request : ElementRequest) (source : Nat) (declared : String) : Prop :=
  match request with
  | attributeJoin request =>
    request.implicit = true ∧ request.source.uid = source
      ∧ request.declared?.map Attribute.name = some declared
  | _ => False

theorem Asks.unique {request : ElementRequest} {source source' : Nat} {declared declared' : String}
    (h : request.Asks source declared) (h' : request.Asks source' declared') :
    source = source' ∧ declared = declared' := by
  cases request with
  | attributeJoin request =>
    obtain ⟨-, hsource, hname⟩ := h
    obtain ⟨-, hsource', hname'⟩ := h'
    exact ⟨hsource.symm.trans hsource', Option.some.inj (hname.symm.trans hname')⟩
  | _ => exact h.elim

end ElementRequest

/-! ## What failing requests leave -/

namespace Context

/-- The numbers of the registered elements and of the remembered joins were drawn. -/
structure Drawn (context : Context) : Prop where
  registered : ∀ element ∈ context.registered, element.uid < context.nextUid
  remembered : ∀ known ∈ context.implicitJoins, known.join < context.nextUid

/-- Nothing that can be looked up has changed. The implicit join that was asked for may be remembered
under the next number, which no element has. -/
structure Untouched (before : Context) (request : ElementRequest) (after : Context) : Prop where
  spaces : after.levels = before.levels
  bindings : after.trail = before.trail
  found : ∀ uid, after.find? uid = before.find? uid
  recalled : ∀ source declared,
    (request.Asks source declared → before.find? before.nextUid = none) →
      after.implicitJoin? source declared = before.implicitJoin? source declared

/-- An element under the next number was put into its space and registered, but not bound, since
its variable stands for another element of the current scope. -/
structure Strands (before : Context) (request : ElementRequest) (existing element : FromElement)
    (after : Context) : Prop where
  taken : Trail.find? element.aliasName (Trail.current before.trail) = some existing
  numbered : element.uid = before.nextUid
  spaces : before.levels.update (request.put element) request.space = .ok after.levels
  bindings : after.trail = before.trail
  found : ∀ uid, after.find? uid = if uid = before.nextUid then some element else before.find? uid
  recalled : (∀ known ∈ before.implicitJoins, known.join ≠ before.nextUid) →
    ∀ source declared, ¬request.Asks source declared →
      after.implicitJoin? source declared = before.implicitJoin? source declared

/-- A state that is met while a statement is interpreted holds numbers that were drawn. -/
theorem Sound.drawn {schema : Schema} {clean : Prop} {context : Context}
    (h : context.Sound schema clean) : context.Drawn where
  registered := h.fresh
  remembered := by
    intro known hknown
    obtain ⟨join, hjoin, huid, -⟩ := h.recalls.recalled known hknown
    rw [← huid]
    exact h.fresh join hjoin

/-- The next number is in use neither for an element nor for a join. -/
theorem Drawn.next_unused {context : Context} (h : context.Drawn) :
    context.find? context.nextUid = none
      ∧ ∀ known ∈ context.implicitJoins, known.join ≠ context.nextUid := by
  refine ⟨List.find?_eq_none.mpr fun element hmem => ?_, fun known hknown => ?_⟩
  · have hlt := h.registered element hmem
    simp only [beq_iff_eq]
    omega
  · exact Nat.ne_of_lt (h.remembered known hknown)

end Context

/-- What a request leaves that fails. -/
structure ElementRequest.Abandoned (request : ElementRequest) (before : Context) (fault : Fault)
    (after : Context) : Prop where
  stranded : ∀ existing element, fault = .aliasBound existing element →
    before.Strands request existing element after
  untouched : (∀ existing element, fault ≠ .aliasBound existing element) → before.Untouched request after

namespace ElementRequest

variable {request : ElementRequest} {before start : Context} {element : FromElement}

/-- The state in which an element is ready to be put into its space: the implicit join that is asked
for may have been remembered under its number. -/
structure Prepares (request : ElementRequest) (before start : Context) : Prop where
  spaces : start.levels = before.levels
  bindings : start.trail = before.trail
  registered : start.registered = before.registered
  remembered : start.implicitJoins = before.implicitJoins
    ∨ ∃ source declared, request.Asks source declared
      ∧ before.implicitJoin? source declared = none
      ∧ start.implicitJoins = ⟨source, declared, before.nextUid⟩ :: before.implicitJoins

namespace Prepares

theorem find?_eq (h : request.Prepares before start) (uid : Nat) :
    start.find? uid = before.find? uid := by
  rw [Context.find?, h.registered, Context.find?]

/-- What is remembered of other sources and attributes. -/
theorem entry_eq (h : request.Prepares before start) {source : Nat} {declared : String}
    (hother : ¬request.Asks source declared) :
    (start.implicitJoins.find? fun known => known.source == source && known.declared == declared)
      = before.implicitJoins.find? fun known =>
        known.source == source && known.declared == declared := by
  rcases h.remembered with hsame | ⟨asked, name, hasks, -, hmore⟩
  · rw [hsame]
  · have hkey : ¬(asked = source ∧ name = declared) := by
      rintro ⟨rfl, rfl⟩
      exact hother hasks
    rw [hmore, List.find?_cons_of_neg (by simpa using hkey)]

/-- A join that was remembered and not registered is not found. -/
theorem recalled (h : request.Prepares before start) (source : Nat) (declared : String)
    (hnext : request.Asks source declared → before.find? before.nextUid = none) :
    start.implicitJoin? source declared = before.implicitJoin? source declared := by
  by_cases hasked : request.Asks source declared
  · rcases h.remembered with hsame | ⟨asked, name, hasks, hnone, hmore⟩
    · simp only [Context.implicitJoin?, hsame, h.find?_eq]
    · obtain ⟨rfl, rfl⟩ := hasks.unique hasked
      rw [hnone, Context.implicitJoin?, hmore, List.find?_cons_of_pos (by simp), Option.bind_some,
        h.find?_eq, hnext hasked]
  · simp only [Context.implicitJoin?, h.entry_eq hasked, h.find?_eq]

theorem untouched (h : request.Prepares before start) : before.Untouched request start where
  spaces := h.spaces
  bindings := h.bindings
  found := h.find?_eq
  recalled := h.recalled

/-- The element stays where it was put when its variable is taken. -/
theorem strands (h : request.Prepares before start) (hnumber : element.uid = before.nextUid)
    {existing : FromElement}
    (htaken : Trail.find? element.aliasName (Trail.current start.trail) = some existing)
    {levels : Levels} (hput : start.levels.update (request.put element) request.space = .ok levels) :
    before.Strands request existing element { start.register element with levels := levels } := by
  have hfound : ∀ uid, ({ start.register element with levels := levels } : Context).find? uid
      = if uid = before.nextUid then some element else before.find? uid := by
    intro uid
    change (element :: start.registered).find? _ = _
    rw [h.registered, ← hnumber]
    by_cases huid : uid = element.uid
    · subst huid
      simp
    · rw [List.find?_cons_of_neg (by simpa using Ne.symm huid), if_neg huid]
      rfl
  refine ⟨by rw [← h.bindings]; exact htaken, hnumber, by rw [← h.spaces]; exact hput, h.bindings,
    hfound, fun hunused source declared hother => ?_⟩
  unfold Context.implicitJoin?
  simp only [hfound]
  change (start.implicitJoins.find? _).bind _ = _
  rw [h.entry_eq hother]
  refine Option.bind_congr fun known hknown => ?_
  rw [if_neg (hunused known (List.mem_of_find?_eq_some hknown))]

end Prepares

end ElementRequest

/-! ## Faults with the states that they leave -/

namespace Step

/-- Every fault that a step fails with satisfies `F`, with the state that it leaves. -/
def Abandons {α : Type} (schema : Schema) (before : Context) (step : Step α)
    (F : Fault → Context → Prop) : Prop :=
  ∀ fault after, step.run' schema before = (.error fault, after) → F fault after

variable {α β : Type} {schema : Schema} {before start : Context} {F : Fault → Context → Prop}

theorem abandons_pure {value : α} : Abandons schema before (pure value) F := by
  intro fault after hrun
  cases hrun

theorem abandons_throw {fault : Fault} (h : F fault before) :
    Abandons schema before (throw fault : Step α) F := by
  intro failed after hrun
  cases hrun
  exact h

/-- The second step starts where the first one ends. -/
theorem abandons_bind {Q : α → Context → Prop} {first : Step α} {second : α → Step β}
    (hends : Ends schema before first Q) (hfirst : Abandons schema before first F)
    (hsecond : ∀ value between, Q value between → Abandons schema between (second value) F) :
    Abandons schema before (first >>= second) F := by
  intro fault after hrun
  rw [run_bind] at hrun
  cases hone : first.run' schema before with
  | mk outcome between =>
    rw [hone] at hrun
    cases outcome with
    | error failed =>
      cases hrun
      exact hfirst fault after hone
    | ok value => exact hsecond value between (hends value between hone) fault after hrun

/-- A step that leaves the state, whether it fails or not. -/
theorem abandons_stays {P : Fault → Prop} {step : Step α} (hstays : Stays schema False before step)
    (hfails : Fails schema before step P) (hfault : ∀ fault, P fault → F fault before) :
    Abandons schema before step F := by
  intro fault after hrun
  have hafter := hstays.state
  rw [hrun] at hafter
  subst hafter
  exact hfault fault (hfails fault _ hrun)

theorem abandons_throw_bind {fault : Fault} {second : α → Step β} (h : F fault before) :
    Abandons schema before ((throw fault : Step α) >>= second) F :=
  abandons_bind (Q := fun _ _ => False) (ends_throw fault) (abandons_throw h) fun _ _ h => h.elim

theorem abandons_modify_bind {change : Context → Context} {second : Unit → Step β}
    (h : Abandons schema (change before) (second ()) F) :
    Abandons schema before (modify change >>= second) F :=
  h

theorem abandons_get_bind {second : Context → Step β}
    (h : Abandons schema before (second before) F) :
    Abandons schema before (get >>= second) F :=
  h

/-- A change that fails leaves the state. -/
theorem abandons_change {change : Context → Except Fault Context}
    (h : ∀ fault, change before = .error fault → F fault before) :
    Abandons schema before (Step.change change) F := by
  refine abandons_get_bind ?_
  cases hchange : change before with
  | error fault => exact abandons_throw (h fault hchange)
  | ok after =>
    intro fault final hrun
    cases hrun

/-- The element is registered before its variable is bound. -/
theorem abandons_registerElement {element : FromElement}
    (h : ∀ existing, Trail.find? element.aliasName (Trail.current before.trail) = some existing →
      F (.aliasBound existing element) (before.register element)) :
    Abandons schema before (registerElement element) F := by
  refine abandons_modify_bind (abandons_change fun fault hbind => ?_)
  change (before.trail.bind element).map _ = .error fault at hbind
  unfold Trail.bind at hbind
  split at hbind
  · rename_i existing htaken
    cases hbind
    exact h existing htaken
  · cases hbind

end Step

/-- A space is unknown or rejects the change. -/
theorem Levels.update_fault {change : OpenSpace → Except Fault OpenSpace} {levels : Levels}
    {id : SpaceId} {fault : Fault} (h : levels.update change id = .error fault) :
    fault = .unknownSpace ∨ ∃ space, change space = .error fault := by
  induction levels with
  | nil =>
    cases h
    exact .inl rfl
  | cons spaces below ih =>
    rw [update] at h
    split at h
    · split at h
      · cases h
        exact .inl rfl
      · rename_i space _
        cases hchange : change space with
        | error failed =>
          rw [hchange] at h
          cases h
          exact .inr ⟨space, hchange⟩
        | ok filled =>
          rw [hchange] at h
          cases h
    · cases hbelow : update change below id with
      | error failed =>
        rw [hbelow] at h
        cases h
        exact ih hbelow
      | ok levels =>
        rw [hbelow] at h
        cases h

/-! ## Requests that fail -/

/-- The fault is about something other than a variable. -/
def Fault.Unclashing (fault : Fault) : Prop := ∀ existing element, fault ≠ .aliasBound existing element

namespace ElementRequest

variable {request : ElementRequest} {schema : Schema} {before start : Context}
  {element : FromElement}

theorem put_unclashing {open? : OpenSpace} {fault : Fault}
    (h : request.put element open? = .error fault) : fault.Unclashing := by
  intro existing other hfault
  subst hfault
  cases request <;> cases open? <;> cases h

theorem Abandoned.of_unclashing {fault : Fault} {after : Context} (hfault : fault.Unclashing)
    (h : before.Untouched request after) : request.Abandoned before fault after :=
  ⟨fun existing element heq => absurd heq (hfault existing element), fun _ => h⟩

/-- The element is put into its space, then it is registered, then it is bound. -/
theorem Prepares.place_abandons (h : request.Prepares before start)
    (hnumber : element.uid = before.nextUid) :
    Step.Abandons schema start (do
      Step.updateSpace request.space (request.put element)
      Step.registerElement element
      return element) (request.Abandoned before) := by
  refine Step.abandons_bind (Q := fun _ after => ∃ levels,
    start.levels.update (request.put element) request.space = .ok levels
      ∧ after = { start with levels := levels })
    (Step.ends_updateSpace fun levels hupdate => ⟨levels, hupdate, rfl⟩)
    (Step.abandons_change fun fault hchange => ?_) ?_
  · cases hupdate : start.levels.update (request.put element) request.space with
    | error failed =>
      rw [hupdate] at hchange
      cases hchange
      refine .of_unclashing ?_ h.untouched
      rcases Levels.update_fault hupdate with rfl | ⟨space, hput⟩
      · exact fun _ _ => nofun
      · exact put_unclashing hput
    | ok levels =>
      rw [hupdate] at hchange
      cases hchange
  · rintro _ _ ⟨levels, hupdate, rfl⟩
    refine Step.abandons_bind (Q := fun _ _ => True) (fun _ _ _ => trivial)
      (Step.abandons_registerElement fun existing htaken => ?_)
      fun _ _ _ => Step.abandons_pure
    refine ⟨fun _ _ hfault => ?_, fun hfault => absurd rfl (hfault existing element)⟩
    cases hfault
    exact h.strands hnumber htaken hupdate

/-- A join is put into a space with a root. -/
theorem Prepares.attach_abandons (h : request.Prepares before start)
    (hnumber : element.uid = before.nextUid)
    (hput : request.put element = fun open? => open?.addJoin element) :
    Step.Abandons schema start (do
      Step.attach request.space element
      return element) (request.Abandoned before) := by
  simp only [Step.attach, bind_assoc]
  rw [← hput]
  exact h.place_abandons hnumber

/-- Drawing numbers and variables does not fail. -/
theorem newBinding_abandons {alias? : Option String} {type : TypeDescriptor}
    {next : Binding → Step FromElement} {F : Fault → Context → Prop}
    (h : ∀ (binding : Binding) nextAlias, binding.uid = before.nextUid →
      Step.Abandons schema { before with nextUid := before.nextUid + 1, nextAlias }
        (next binding) F) :
    Step.Abandons schema before (Step.newBinding alias? type >>= next) F := by
  refine Step.abandons_bind (Q := fun binding after => ∃ nextAlias,
    binding.uid = before.nextUid
      ∧ after = { before with nextUid := before.nextUid + 1, nextAlias })
    (Step.ends_newBinding fun binding nextAlias hdraws => ⟨nextAlias, hdraws.uid, rfl⟩) ?_ ?_
  · intro fault after hrun
    exact (Step.newBinding_fails (F := fun _ => False) _ _ fault after hrun).elim
  · rintro binding _ ⟨nextAlias, hnumber, rfl⟩
    exact h binding nextAlias hnumber

theorem Prepares.drawn (request : ElementRequest) (before : Context) (nextUid nextAlias : Nat) :
    request.Prepares before { before with nextUid, nextAlias } :=
  ⟨rfl, rfl, rfl, .inl rfl⟩

theorem ensureMapped_unclashing (entity : EntityReference) (form : EntityJoinForm) :
    Step.Fails schema before (Step.ensureMapped entity form) Fault.Unclashing := by
  unfold Step.ensureMapped
  split
  · exact Step.fails_throw fun _ _ => nofun
  · exact Step.fails_pure

theorem joinableAttribute_unclashing (request : JoinRequest) :
    Step.Fails schema before (Step.joinableAttribute request) Fault.Unclashing := by
  unfold Step.joinableAttribute
  dsimp only
  split
  · exact Step.fails_throw_bind fun _ _ => nofun
  split
  · exact Step.fails_throw_bind fun _ _ => nofun
  split
  · exact Step.fails_throw fun _ _ => nofun
  · split
    · exact Step.fails_throw_bind fun _ _ => nofun
    · exact Step.fails_pure

theorem attributeType_unclashing (declared : Attribute) :
    Step.Fails schema before (Step.attributeType declared) Fault.Unclashing := by
  refine Step.fails_read_bind ?_
  split
  · exact Step.fails_pure
  · exact Step.fails_throw fun _ _ => nofun

/-- A check that fails leaves everything as it was. -/
theorem check_abandons {α : Type} {step : Step α} (hstays : Step.Stays schema False before step)
    (hfails : Step.Fails schema before step Fault.Unclashing) :
    Step.Abandons schema before step (request.Abandoned before) :=
  Step.abandons_stays hstays hfails fun _ hfault =>
    .of_unclashing hfault (Prepares.drawn request before _ _).untouched

theorem check_bind {α : Type} {first : Step α} {second : α → Step FromElement}
    (hstays : Step.Stays schema False before first)
    (hfails : Step.Fails schema before first Fault.Unclashing)
    (hsecond : ∀ value, Step.Abandons schema before (second value) (request.Abandoned before)) :
    Step.Abandons schema before (first >>= second) (request.Abandoned before) := by
  refine Step.abandons_bind hstays.ends (check_abandons hstays hfails) ?_
  rintro value _ rfl
  exact hsecond value

/-- What is noted of an implicit join is that it was asked for, under its number. -/
theorem noteJoin_prepares {request : JoinRequest} {declared : Attribute} {join : Nat}
    (nextAlias : Nat) (hdeclared : request.declared? = some declared)
    (hnone : request.implicit = true →
      before.implicitJoin? request.source.uid declared.name = none)
    (hnumber : join = before.nextUid) :
    (attributeJoin request).Prepares before
      (Step.noteJoin request declared join
        { before with nextUid := before.nextUid + 1, nextAlias }) := by
  refine ⟨rfl, rfl, rfl, ?_⟩
  rcases Step.implicitJoins_noteJoin declared request join
    { before with nextUid := before.nextUid + 1, nextAlias } with ⟨-, hjoins⟩ | ⟨himplicit, hjoins⟩
  · exact .inl hjoins
  · have hasks : (attributeJoin request).Asks request.source.uid declared.name :=
      ⟨himplicit, rfl, by rw [hdeclared]; rfl⟩
    exact .inr ⟨_, _, hasks, hnone himplicit, hnumber ▸ hjoins⟩

theorem newAttributeJoin_abandons {request : JoinRequest} {declared : Attribute}
    (hdeclared : request.declared? = some declared)
    (hnone : request.implicit = true →
      before.implicitJoin? request.source.uid declared.name = none) :
    Step.Abandons schema before (Step.newAttributeJoin request declared)
      ((attributeJoin request).Abandoned before) := by
  rw [Step.newAttributeJoin_eq]
  refine check_bind (Step.attributeType_stays declared) (attributeType_unclashing declared)
    fun type => ?_
  dsimp only
  split
  · exact Step.abandons_throw_bind <| .of_unclashing (fun _ _ => nofun)
      (Prepares.drawn (attributeJoin request) before _ _).untouched
  exact newBinding_abandons fun binding nextAlias hnumber => Step.abandons_modify_bind
    ((noteJoin_prepares nextAlias hdeclared hnone hnumber).attach_abandons hnumber rfl)

theorem attributeJoin_abandons (request : JoinRequest) :
    Step.Abandons schema before (Step.attributeJoin request)
      ((attributeJoin request).Abandoned before) := by
  unfold Step.attributeJoin
  have hchecked : Step.Ends schema before (Step.joinableAttribute request) fun declared after =>
      before = after ∧ request.declared? = some declared :=
    Step.ends_joinableAttribute fun declared hdeclared _ => ⟨rfl, hdeclared⟩
  refine Step.abandons_bind hchecked (check_abandons (Step.joinableAttribute_stays request)
    (joinableAttribute_unclashing request)) ?_
  rintro declared _ ⟨rfl, hdeclared⟩
  split
  · refine Step.abandons_get_bind ?_
    split
    · exact Step.abandons_pure
    · rename_i hnone
      exact newAttributeJoin_abandons hdeclared fun _ => hnone
  · rename_i hwritten
    exact newAttributeJoin_abandons hdeclared fun himplicit => absurd himplicit hwritten

/-- Whatever a request fails with, it leaves what it found or a stranded element. -/
theorem step_abandons (request : ElementRequest) (schema : Schema) (before : Context) :
    Step.Abandons schema before request.step (request.Abandoned before) := by
  cases request with
  | root space entity alias? =>
    exact newBinding_abandons fun binding nextAlias hnumber =>
      (Prepares.drawn (root space entity alias?) before _ nextAlias).place_abandons hnumber
  | crossJoin space entity alias? =>
    refine check_bind (Step.ensureMapped_stays _ _) (ensureMapped_unclashing _ _) fun _ => ?_
    exact newBinding_abandons fun binding nextAlias hnumber =>
      (Prepares.drawn (crossJoin space entity alias?) before _ nextAlias).attach_abandons hnumber rfl
  | entityJoin space alias? entity joinType =>
    refine check_bind (Step.ensureMapped_stays _ _) (ensureMapped_unclashing _ _) fun _ => ?_
    exact newBinding_abandons fun binding nextAlias hnumber =>
      (Prepares.drawn (entityJoin space alias? entity joinType) before _ nextAlias).attach_abandons
        hnumber rfl
  | attributeJoin request => exact attributeJoin_abandons request

end ElementRequest

/-- A request that fails never binds a variable. Where the variable of its element is bound in the
current scope already, the element stays in its space and stays registered; where it fails with
another fault, everything that can be looked up is as it was. -/
theorem elementRequest_abandoned {request : ElementRequest} {schema : Schema}
    {before after : Context} {fault : Fault}
    (h : request.step.run' schema before = (.error fault, after)) :
    request.Abandoned before fault after :=
  request.step_abandons schema before fault after h

/-! ## Shelves in one space -/

def shelf : EntityReference := .mapped ⟨"Shelf", [⟨"label", .basic .string⟩]⟩

/-- A space with the shelves `s` as its root. -/
def shelfSpace : Context :=
  ((ElementRequest.root ⟨0, 0⟩ shelf (some "s")).step.run' shelving.schema
    { levels := [[.vacant]] }).2

/-- More shelves, under the same variable. -/
def sameShelf : ElementRequest := .crossJoin ⟨0, 0⟩ shelf (some "s")

/-- Another root, for which the space has no room. -/
def secondRoot : ElementRequest := .root ⟨0, 0⟩ shelf (some "t")

/-- One request is abandoned with its element in the space, another one before. -/
theorem elementRequest_abandoned_shelves :
    (∃ existing element after,
      sameShelf.step.run' shelving.schema shelfSpace = (.error (.aliasBound existing element), after)
        ∧ shelfSpace.Strands sameShelf existing element after)
    ∧ ∃ existing element after,
      secondRoot.step.run' shelving.schema shelfSpace
          = (.error (.rootPresent existing element), after)
        ∧ shelfSpace.Untouched secondRoot after := by
  refine ⟨?_, ?_⟩
  · obtain ⟨existing, element, after, hrun⟩ : ∃ existing element after,
        sameShelf.step.run' shelving.schema shelfSpace
          = (.error (.aliasBound existing element), after) := ⟨_, _, _, rfl⟩
    exact ⟨existing, element, after, hrun,
      (elementRequest_abandoned hrun).stranded existing element rfl⟩
  · obtain ⟨existing, element, after, hrun⟩ : ∃ existing element after,
        secondRoot.step.run' shelving.schema shelfSpace
          = (.error (.rootPresent existing element), after) := ⟨_, _, _, rfl⟩
    exact ⟨existing, element, after, hrun,
      (elementRequest_abandoned hrun).untouched fun _ _ => nofun⟩

/-- A request that fails leaves a trace where its variable is taken: the element is found by its
number and stands in its space. -/
theorem sameShelf_stays :
    ∃ fault after, sameShelf.step.run' shelving.schema shelfSpace = (.error fault, after)
      ∧ shelfSpace.find? 1 = none ∧ (after.find? 1).isSome = true
      ∧ (shelfSpace.levels.space? ⟨0, 0⟩).any (fun space => space.contains 1) = false
      ∧ (after.levels.space? ⟨0, 0⟩).any (fun space => space.contains 1) = true :=
  ⟨_, _, rfl, rfl, rfl, rfl, rfl⟩

end EntityQuery.Interpretation

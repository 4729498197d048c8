import EntityQuery.Proofs.BuiltPaths
import EntityQuery.Proofs.Motion

/-!
# States that paths leave

Following a path makes implicit joins, each in the space that its source stands in, and narrowed
elements. All other steps of a path leave the state as it is.

* `Step.implicitJoin_moves`, `Step.fromElementParts_moves`, `Step.treat_moves`: elements.
* `Step.path_moves`, `Step.indexed_moves`, `Step.treated_moves`, `Step.mapEntry_moves`: expressions.
-/

namespace EntityQuery.Interpretation.Step

open Resolved (AttributeReference Expression IndexedReference PathSource)

variable {schema : Schema} {free : Prop} {before : Context}

/-! ## Steps that leave the state -/

theorem refl_eq (context : Context) : context = context := rfl

theorem stays_bind {α β : Type} {first : Step α} {second : α → Step β}
    (hfirst : Stays schema free before first)
    (hsecond : ∀ value, Stays schema free before (second value)) :
    Stays schema free before (first >>= second) :=
  stays_then refl_eq hfirst fun value _ => hsecond value

theorem stays_pure {α : Type} (value : α) : Stays schema free before (pure value) :=
  moves_pure refl_eq value

theorem stays_throw {α : Type} {fault : Fault}
    (h : ∀ breach, fault ≠ .strict breach) :
    Stays schema free before (throw fault : Step α) :=
  moves_throw refl_eq h

theorem stays_throw_bind {α β : Type} {fault : Fault} {second : α → Step β}
    (h : ∀ breach, fault ≠ .strict breach) :
    Stays schema free before ((throw fault : Step α) >>= second) :=
  moves_throw_bind refl_eq h

theorem stays_comply (violated : Bool) (breach : Breach) :
    Stays schema False before (comply violated breach) :=
  moves_comply refl_eq violated breach

theorem attributeType_stays (declared : Attribute) :
    Stays schema free before (attributeType declared) := by
  refine moves_read_bind ?_ fun _ => rfl
  split
  · exact stays_pure _
  · exact stays_throw nofun

theorem joinableAttribute_stays (request : JoinRequest) :
    Stays schema free before (joinableAttribute request) := by
  unfold joinableAttribute
  dsimp only
  split
  · exact stays_throw_bind nofun
  split
  · exact stays_throw_bind nofun
  split
  · exact stays_throw nofun
  split
  · exact stays_throw_bind nofun
  · exact stays_pure _

theorem checkReach_stays (element : FromElement) :
    Stays schema free before (checkReach element) := by
  refine moves_get_bind ?_
  split
  · split
    · exact stays_throw nofun
    · exact stays_pure _
  · exact stays_pure _

theorem checkDereference_stays (type : TypeDescriptor) (place : String) (last : Bool) :
    Stays schema free before (ofExcept (checkDereference type place last)) := by
  refine moves_ofExcept refl_eq fun breach hfault => ?_
  unfold checkDereference at hfault
  split at hfault
  · cases hfault
  · split at hfault <;> cases hfault

theorem attributeReference_stays (source : PathSource) (type : TypeDescriptor) (name : String)
    (path : DottedName) : Stays schema free before (attributeReference source type name path) := by
  unfold attributeReference
  split
  · exact stays_throw nofun
  · exact stays_bind (attributeType_stays _) fun _ => stays_pure _

theorem composites_stays (path : DottedName) (source : PathSource) (type : TypeDescriptor)
    (place : String) (names : List String) :
    Stays schema free before (composites path source type place names) := by
  induction names generalizing source type place with
  | nil => exact stays_pure _
  | cons name names ih =>
    refine stays_bind (attributeReference_stays source type name path) fun attained => ?_
    refine stays_bind (checkDereference_stays _ _ _) fun _ => ?_
    split
    · exact ih _ _ _
    · exact stays_throw nofun

theorem attributes_stays (path : DottedName) (source : PathSource) (type : TypeDescriptor)
    (names : List String) : Stays schema free before (attributes path source type names) := by
  induction names generalizing source type with
  | nil => exact stays_pure _
  | cons name names ih =>
    refine stays_bind (attributeReference_stays source type name path) fun attained => ?_
    exact stays_bind (checkDereference_stays _ _ _) fun _ => ih _ _

theorem navigateIndexed_stays (indexed : IndexedReference) (path : DottedName) :
    Stays schema free before (navigateIndexed indexed path) := by
  unfold navigateIndexed
  split
  · exact stays_pure _
  · refine stays_bind (attributes_stays _ _ _ _) fun reached => ?_
    exact stays_bind (attributeReference_stays _ _ _ _) fun _ => stays_pure _

theorem treatTarget_stays (name : DottedName) : Stays schema free before (treatTarget name) := by
  refine moves_read_bind ?_ fun _ => rfl
  split
  · exact stays_pure _
  · exact stays_throw nofun

theorem literal_stays (token : Phrase.Literal) : Stays schema free before (literal token) := by
  unfold literal
  split
  · exact stays_pure _
  · exact stays_throw nofun

theorem collectionFunction_stays (function : CollectionFunction) (argument : Expression) :
    Stays schema free before (collectionFunction function argument) := by
  unfold collectionFunction
  split
  · split
    · refine stays_bind (moves_ofExcept refl_eq fun breach hfault => ?_) fun _ => stays_pure _
      unfold collectionFunctionType at hfault
      split at hfault
      all_goals first | cases hfault | (split at hfault <;> cases hfault)
    · exact stays_throw nofun
  · exact stays_throw nofun

theorem pluralOperand_stays (form : PluralForm) (operand : Expression) :
    Stays schema free before (pluralOperand form operand) := by
  unfold pluralOperand
  split
  · split
    · exact stays_pure _
    · exact stays_throw nofun
  · exact stays_throw nofun

theorem instantiationTarget_stays (target : Phrase.Target) (items : List Phrase.SelectItem) :
    Stays schema free before (instantiationTarget target items) := by
  unfold instantiationTarget
  split
  · exact stays_pure _
  · split
    · exact stays_throw nofun
    · exact stays_pure _
  · refine moves_read_bind ?_ fun _ => rfl
    split
    · exact stays_pure _
    · exact stays_throw nofun

theorem identificationVariable_stays (name : String) :
    Stays schema free before (identificationVariable name) := by
  refine moves_get_bind ?_
  split
  · exact stays_pure _
  · exact stays_throw nofun

/-! ## Elements -/

/-- The faults of putting an element into a space are no breaches. -/
theorem update_lenient {change : OpenSpace → Except Fault OpenSpace}
    (h : ∀ space breach, change space ≠ .error (.strict breach)) (levels : Levels) (id : SpaceId)
    (breach : Breach) : levels.update change id ≠ .error (.strict breach) := by
  induction levels with
  | nil =>
    intro hfault
    cases hfault
  | cons spaces below ih =>
    intro hfault
    simp only [Levels.update] at hfault
    split at hfault
    · split at hfault
      · cases hfault
      · rename_i space hspace
        cases hchange : change space with
        | error fault =>
          simp only [hchange, Except.map, Except.error.injEq] at hfault
          exact h space breach (by rw [hchange, hfault])
        | ok filled =>
          rw [hchange] at hfault
          cases hfault
    · cases hupdate : Levels.update change below id with
      | error fault =>
        simp only [hupdate, Except.map, Except.error.injEq] at hfault
        exact ih (by rw [hupdate, hfault])
      | ok changed =>
        rw [hupdate] at hfault
        cases hfault

theorem updateSpace_moves {R : Context → Context → Prop} (hrefl : ∀ context, R context context)
    {id : SpaceId} {change : OpenSpace → Except Fault OpenSpace}
    (hlenient : ∀ space breach, change space ≠ .error (.strict breach))
    (h : ∀ place space filled, before.levels = Place.fill place space → place.id = id →
      change space = .ok filled → R before { before with levels := place.fill filled }) :
    Moves schema free R before (updateSpace id change) := by
  refine moves_change hrefl (fun after hchange => ?_) fun breach hfault => ?_
  · cases hupdate : before.levels.update change id with
    | error fault => simp [hupdate, Except.map] at hchange
    | ok levels =>
      simp only [hupdate, Except.map, Except.ok.injEq] at hchange
      subst hchange
      obtain ⟨place, space, filled, hopened, rfl, hid, hfilled⟩ := Levels.update_ok hupdate
      exact h place space filled hopened hid hfilled
  · cases hupdate : before.levels.update change id with
    | error fault =>
      simp only [hupdate, Except.map, Except.error.injEq] at hfault
      exact update_lenient hlenient before.levels id breach (by rw [hupdate, hfault])
    | ok levels =>
      rw [hupdate] at hfault
      cases hfault

theorem addJoin_lenient (element : FromElement) (space : OpenSpace) (breach : Breach) :
    space.addJoin element ≠ .error (.strict breach) := by
  cases space with
  | vacant =>
    intro hfault
    cases hfault
  | rooted root joins =>
    intro hfault
    cases hfault

/-- A join through an attribute comes by its type as the request says. -/
theorem requested_admitted {request : JoinRequest} {declared : Attribute} {type : TypeDescriptor}
    {binding : Binding} {treat : DottedName → Prop}
    (hbinding : binding.type = joinedType request.narrowed? type)
    (htype : schema.resolve? declared.type = some type)
    (hnarrowed : ∀ entity, request.narrowed? = some entity → schema.Names treat entity) :
    (requested request declared type binding).Admitted schema treat :=
  ⟨request.narrowed?, hbinding, htype, hnarrowed⟩

section

variable {treat : DottedName → Prop} {outer inner : Context → Context → Prop}
  (motion : Motion schema treat outer inner)
include motion

theorem newBinding_moves (alias? : Option String) (type : TypeDescriptor) :
    Moves schema free outer before (newBinding alias? type) := by
  have hdraw : ∀ (context : Context), Moves schema free outer context drawUid := fun context =>
    ⟨motion.idle context _ _ _ _ _ _, fun _ _ hfault => (by cases hfault), fun _ _ => rfl⟩
  unfold newBinding
  cases alias? with
  | some aliasName =>
    exact moves_bind motion.trans (hdraw before) fun _ _ _ => moves_pure motion.refl _
  | none =>
    refine moves_bind motion.trans
      ⟨motion.idle before _ _ _ _ _ _, fun _ _ hfault => ?_, fun _ _ => rfl⟩
      fun aliasName between _ => ?_
    · cases hfault
    · exact moves_bind motion.trans (hdraw between) fun _ _ _ => moves_pure motion.refl _

/-- An element is bound as `S` allows. -/
theorem registerElement_moves {S : Context → Context → Prop}
    (himp : ∀ first second, outer first second → S first second)
    (htrans : ∀ first second third, S first second → S second third → S first third)
    {element : FromElement} (helement : element.Admitted schema treat)
    (hbind : ∀ (context : Context) (trail : Trail), context.trail.bind element = .ok trail →
      S context { context with trail := trail }) :
    Moves schema free S before (registerElement element) := by
  refine moves_bind htrans (moves_modify (himp _ _ (motion.register before element helement)))
    fun _ between _ => moves_change (fun context => himp _ _ (motion.refl context))
      (fun after hchange => ?_) fun breach hfault => ?_
  · cases hbound : between.trail.bind element with
    | error fault => simp [hbound, Except.map] at hchange
    | ok trail =>
      simp only [hbound, Except.map, Except.ok.injEq] at hchange
      subst hchange
      exact hbind between trail hbound
  · cases hbound : between.trail.bind element with
    | ok trail =>
      rw [hbound] at hfault
      cases hfault
    | error fault =>
      simp only [hbound, Except.map, Except.error.injEq] at hfault
      subst hfault
      unfold Trail.bind at hbound
      split at hbound <;> cases hbound

/-- A join through an attribute is put into its space and bound as `S` allows. Without a variable of
its own it has a made-up one. -/
theorem newAttributeJoin_moves {S : Context → Context → Prop}
    (himp : ∀ first second, outer first second → S first second)
    (htrans : ∀ first second third, S first second → S second third → S first third)
    {request : JoinRequest} {declared : Attribute}
    (hnarrowed : ∀ entity, request.narrowed? = some entity → schema.Names treat entity)
    (hplace : ∀ (between : Context) (binding : Binding) (type : TypeDescriptor),
      (request.alias? = none → binding.generated = true) → between.levels = before.levels →
        Moves schema free S between (updateSpace request.space fun open? =>
          open?.addJoin (requested request declared type binding)))
    (hbind : ∀ (binding : Binding) (type : TypeDescriptor) (context : Context) (trail : Trail),
      (request.alias? = none → binding.generated = true) →
      context.trail.bind (requested request declared type binding) = .ok trail →
        S context { context with trail := trail }) :
    Moves schema free S before (newAttributeJoin request declared) := by
  have hrefl : ∀ context, S context context := fun context => himp _ _ (motion.refl context)
  rw [newAttributeJoin_eq]
  refine stays_then hrefl (attributeType_stays declared) fun type htype => ?_
  have hresolved := ends_attributeType (Q := fun type _ =>
    schema.resolve? declared.type = some type) (fun _ h => h) type before htype
  dsimp only
  split
  · exact moves_throw_bind hrefl nofun
  refine moves_bind htrans ((newBinding_moves motion _ _).mono himp) fun binding drawn hdraw => ?_
  obtain ⟨nextAlias, hdraws, rfl⟩ := ends_newBinding (Q := fun binding after => ∃ nextAlias,
    Draws before request.alias? (joinedType request.narrowed? type) binding nextAlias
      ∧ after = { before with nextUid := before.nextUid + 1, nextAlias })
    (fun binding nextAlias hdraws => ⟨nextAlias, hdraws, rfl⟩) binding drawn hdraw
  have hmadeUp : request.alias? = none → binding.generated = true := hdraws.generated
  refine moves_bind htrans (moves_modify (himp _ _ (motion.idle _ _ _ _ _ _ _)))
    fun _ between hnoted => ?_
  have hlevels : between.levels = before.levels := by
    cases hnoted
    rfl
  refine moves_bind htrans (moves_bind htrans (hplace between binding type hmadeUp hlevels)
    fun _ placed _ => ?_) fun _ _ _ => moves_pure hrefl _
  exact registerElement_moves motion himp htrans
    (requested_admitted hdraws.type hresolved hnarrowed)
    fun context trail => hbind binding type context trail hmadeUp

theorem joinBeside_moves (source : FromElement) (declared? : Option Attribute) (place : String) :
    Moves schema free outer before (joinBeside source declared? place) := by
  refine moves_get_bind ?_
  dsimp only
  split
  · exact moves_throw_bind motion.refl nofun
  split
  · exact moves_throw motion.refl nofun
  rename_i id hid
  obtain ⟨stands, space, hopened, rfl, element, hmem, huid⟩ := Levels.spaceOf?_some hid
  have hcontains : space.contains source.unwrapped.uid = true :=
    List.any_eq_true.mpr ⟨element, hmem, by simp [huid]⟩
  unfold attributeJoin
  refine stays_then motion.refl (joinableAttribute_stays _) fun declared _ => ?_
  rw [if_pos rfl]
  refine moves_get_bind ?_
  split
  · exact moves_pure motion.refl _
  refine newAttributeJoin_moves motion (fun _ _ h => h) motion.trans (fun _ h => by cases h)
    (fun between binding type hmadeUp hlevels => ?_)
    fun binding type context trail hmadeUp => motion.bind context _ trail (hmadeUp rfl)
  refine updateSpace_moves motion.refl (fun space => addJoin_lenient _ space) ?_
  intro found filled_ filled hfound hsame hfilled
  obtain ⟨rfl, rfl⟩ := Place.fill_inj (hfound.symm.trans (hlevels.trans hopened)) hsame
  cases filled_ with
  | vacant => cases hfilled
  | rooted root joins =>
    cases hfilled
    exact motion.joinImplicitly between found root joins binding source _ rfl (hmadeUp rfl) hfound
      hcontains

/-- An implicit join is put into the space that its source stands in. -/
theorem implicitJoin_moves (source : FromElement) (name place : String) (last : Bool) :
    Moves schema free outer before (implicitJoin source name place last) := by
  unfold implicitJoin
  dsimp only
  split
  · refine stays_then motion.refl (attributeType_stays _) fun type _ => ?_
    exact stays_then motion.refl (checkDereference_stays _ _ _) fun _ _ =>
      joinBeside_moves motion _ _ _
  · exact joinBeside_moves motion _ _ _

theorem joinAlong_moves (source : FromElement) (place : String) (names : List String) :
    Moves schema free outer before (joinAlong source place names) := by
  induction names generalizing before source place with
  | nil => exact moves_pure motion.refl _
  | cons name names ih =>
    exact moves_bind motion.trans (implicitJoin_moves motion _ _ _ _) fun _ _ _ => ih _ _

theorem joinThrough_moves (source : FromElement) (names : List String) :
    Moves schema free outer before (joinThrough source names) := by
  induction names generalizing before source with
  | nil => exact moves_pure motion.refl _
  | cons name names ih =>
    exact moves_bind motion.trans (implicitJoin_moves motion _ _ _ _) fun _ _ _ => ih _

theorem fromElementParts_moves (parts : List String) (path : DottedName) :
    Moves schema free outer before (fromElementParts parts path) := by
  unfold fromElementParts
  split
  · exact moves_throw motion.refl nofun
  · refine moves_get_bind ?_
    split
    · exact moves_throw motion.refl nofun
    · exact stays_then motion.refl (checkReach_stays _) fun _ _ => joinAlong_moves motion _ _ _

theorem fromElementPath_moves (path : DottedName) :
    Moves schema free outer before (fromElementPath path) :=
  fromElementParts_moves motion path.parts path

theorem treat_moves (element : FromElement) {target : DottedName} (htarget : treat target) :
    Moves schema free outer before (Step.treat element target) := by
  unfold Step.treat
  refine stays_then motion.refl (treatTarget_stays _) fun entity hrun => ?_
  have hentity := ends_treatTarget (Q := fun entity _ =>
    schema.entity? target.text = some entity) (fun _ h => h) entity before hrun
  dsimp only
  have hnarrow : Moves schema free outer before (do
      modify fun context => context.narrow element.uid entity
      let uid ← drawUid
      modify fun context => context.register
        (FromElement.treated
          ⟨uid, element.aliasName, element.binding.generated, entity.type⟩ element)
      return FromElement.treated
        ⟨uid, element.aliasName, element.binding.generated, entity.type⟩ element) := by
    refine moves_bind motion.trans (moves_modify (motion.idle before _ _ _ _ _ _))
      fun _ marked _ => ?_
    refine moves_bind motion.trans
      ⟨motion.idle marked _ _ _ _ _ _, fun _ _ hfault => (by cases hfault), fun _ _ => rfl⟩
      fun uid drawn _ => ?_
    refine moves_bind motion.trans (moves_modify (motion.register drawn _ ?_))
      fun _ _ _ => moves_pure motion.refl _
    exact ⟨entity, ⟨target, htarget, hentity⟩, rfl⟩
  split
  · split
    · exact moves_throw_bind motion.refl nofun
    · exact hnarrow
  · exact hnarrow

/-! ## Expressions -/

theorem navigate_moves (element : FromElement) (names : List String) (path : DottedName) :
    Moves schema free outer before (navigate element names path) := by
  unfold navigate
  refine stays_then motion.refl (checkReach_stays _) fun _ _ => ?_
  split
  · exact moves_pure motion.refl _
  · refine moves_get_bind ?_
    dsimp only
    split
    · refine stays_then motion.refl (composites_stays _ _ _ _ _) fun reached _ => ?_
      exact stays_then motion.refl (attributeReference_stays _ _ _ _)
        fun _ _ => moves_pure motion.refl _
    · refine moves_bind motion.trans (joinThrough_moves motion _ _) fun source _ _ => ?_
      exact stays_then motion.refl (attributeReference_stays _ _ _ _)
        fun _ _ => moves_pure motion.refl _

theorem path_moves (dotted : DottedName) : Moves schema free outer before (path dotted) := by
  unfold path
  split
  · exact moves_throw motion.refl nofun
  refine moves_get_bind (moves_read_bind ?_ fun _ => rfl)
  split
  · exact navigate_moves motion _ _ _
  split
  · exact moves_pure motion.refl _
  split
  · exact moves_pure motion.refl _
  refine stays_then motion.refl (moves_ofExcept refl_eq fun breach => ?_) fun owner? _ => ?_
  · generalize before.trail.frames = frames
    induction frames with
    | nil =>
      intro hfault
      cases hfault
    | cons frame outer_ ih =>
      unfold bareOwner
      split
      · exact ih
      · intro hfault
        cases hfault
      · intro hfault
        cases hfault
  · split
    · exact navigate_moves motion _ _ _
    · exact moves_throw motion.refl nofun

theorem under_moves {α : Type} (resolver : Resolver) {step : Step α}
    (h : Moves schema free outer (before.pushResolver resolver) step) :
    Moves schema free outer before (under resolver step) := by
  refine ⟨?_, fun hstrict => ?_, fun hfree strict => ?_⟩
  · rw [run_under]
    exact motion.resolve _ _ resolver h.state
  · rw [run_under]
    exact h.lenient hstrict
  · rw [run_under, run_under, h.same hfree strict]

theorem indexed_moves (base : DottedName) (index : Expression) (remainder : Option DottedName) :
    Moves schema free outer before (indexed base index remainder) := by
  unfold indexed
  refine moves_bind motion.trans (path_moves motion base) fun value between _ => ?_
  split
  · split
    · split
      · exact moves_pure motion.refl _
      · exact under_moves motion _ (.of_stays motion.refl (navigateIndexed_stays _ _))
    · exact moves_throw motion.refl nofun
  · exact moves_throw motion.refl nofun

theorem treated_moves (base : DottedName) {target : DottedName} (htarget : treat target)
    (remainder : Option DottedName) :
    Moves schema free outer before (treated base target remainder) := by
  unfold treated
  refine moves_bind motion.trans (fromElementPath_moves motion base) fun element _ _ => ?_
  refine moves_bind motion.trans (treat_moves motion element htarget) fun narrowed _ _ => ?_
  split
  · exact moves_pure motion.refl _
  · exact navigate_moves motion _ _ _

theorem pathOrCall_moves (dotted : DottedName) :
    Moves schema free outer before (pathOrCall dotted) := by
  refine moves_get_bind ?_
  split
  · exact moves_pure motion.refl _
  · exact path_moves motion dotted

theorem parameter_moves (written : Phrase.Parameter) :
    Moves schema free outer before (parameter written) := by
  refine moves_bind motion.trans (moves_change motion.refl (fun after hchange => ?_)
    fun breach hfault => ?_) fun _ _ _ => moves_pure motion.refl _
  · unfold Context.noteParameter at hchange
    dsimp only at hchange
    split at hchange
    · cases hchange
    split at hchange
    · cases hchange
    · cases hchange
      exact motion.idle before _ _ _ _ _ _
  · unfold Context.noteParameter at hfault
    dsimp only at hfault
    split at hfault
    · cases hfault
    split at hfault <;> cases hfault

theorem mapEntry_moves (function : MapFunction) (argument : DottedName) :
    Moves schema False outer before (mapEntry function argument) := by
  refine moves_bind motion.trans (fromElementPath_moves motion argument) fun join _ _ => ?_
  split
  · exact moves_pure motion.refl _
  · exact stays_then motion.refl (stays_comply _ _) fun _ _ => moves_pure motion.refl _
  · exact moves_pure motion.refl _
  · exact moves_pure motion.refl _
  · exact moves_throw motion.refl nofun

theorem indexOfJoin_moves (argument : Phrase.Expression) :
    Moves schema free outer before (indexOfJoin argument) := by
  unfold indexOfJoin
  split
  · refine moves_bind motion.trans (fromElementPath_moves motion _) fun join _ _ => ?_
    split
    · exact moves_pure motion.refl _
    · exact moves_throw motion.refl nofun
  · exact moves_throw motion.refl nofun

theorem announceCollectionFunction_moves (function : CollectionFunction) :
    Moves schema False outer before (announceCollectionFunction function) := by
  unfold announceCollectionFunction
  split
  · exact stays_then motion.refl (stays_comply _ _)
      fun _ _ => moves_modify (motion.idle before _ _ _ _ _ _)
  · exact moves_pure motion.refl _

theorem announceCall_moves (name : String) (generic standard : Bool) :
    Moves schema False outer before (announceCall name generic standard) := by
  unfold announceCall
  split
  · exact stays_then motion.refl (stays_comply _ _)
      fun _ _ => moves_modify (motion.idle before _ _ _ _ _ _)
  · exact moves_pure motion.refl _

end

end EntityQuery.Interpretation.Step

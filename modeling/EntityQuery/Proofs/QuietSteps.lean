import EntityQuery.Proofs.MovedStatements

/-!
# Steps that note no parameter and give no advice

The style of parameters is fixed by parameters alone, and advisories come from three places only:
calls of other functions, functions on collections, and implicit selections. Every other step is
quiet: whatever its outcome, it leaves the style and the advisories as they were.

* `Step.Quiet`: such a step, with one rule for each way of putting steps together.
* `Step.path_quiet`, `Step.indexed_quiet`, `Step.treated_quiet`: what paths refer to.
* `Step.root_quiet`, `Step.joinTarget_quiet`, `Step.memberJoin_quiet`: what from clauses bind.
-/

namespace EntityQuery.Interpretation

/-- The states have the same style of parameters and the same advisories. -/
structure Context.NotesAlike (before after : Context) : Prop where
  style? : after.style? = before.style?
  advisories : after.advisories = before.advisories

namespace Context.NotesAlike

variable {before between after : Context}

theorem refl (context : Context) : context.NotesAlike context := ⟨rfl, rfl⟩

theorem trans (h : before.NotesAlike between) (h' : between.NotesAlike after) :
    before.NotesAlike after :=
  ⟨h'.style?.trans h.style?, h'.advisories.trans h.advisories⟩

end Context.NotesAlike

namespace Step

/-- The step leaves the style of parameters and the advisories, whatever its outcome. -/
def Quiet {α : Type} (step : Step α) : Prop :=
  ∀ schema before, Context.NotesAlike before (step.run' schema before).2

variable {α β : Type}

/-! ## Steps put together -/

theorem Quiet.ends {step : Step α} (h : Quiet step) {schema : Schema} {before : Context} :
    Ends schema before step fun _ after => before.NotesAlike after := by
  intro value after hrun
  have hnotes := h schema before
  rw [hrun] at hnotes
  exact hnotes

theorem quiet_bind {first : Step α} {second : α → Step β} (hfirst : Quiet first)
    (hsecond : ∀ value, Quiet (second value)) : Quiet (first >>= second) := by
  intro schema before
  have hnotes := hfirst schema before
  rw [run_bind]
  cases hrun : first.run' schema before with
  | mk outcome between =>
    rw [hrun] at hnotes
    cases outcome with
    | error fault => exact hnotes
    | ok value => exact hnotes.trans (hsecond value schema between)

/-- A step that leaves the whole state is quiet. -/
theorem quiet_of_stays {step : Step α} (h : ∀ schema before, Stays schema False before step) :
    Quiet step := by
  intro schema before
  rw [← (h schema before).state]
  exact .refl before

theorem quiet_pure (value : α) : Quiet (pure value : Step α) := fun _ before => .refl before

theorem quiet_throw (fault : Fault) : Quiet (throw fault : Step α) := fun _ before => .refl before

theorem quiet_throw_bind (fault : Fault) (second : α → Step β) :
    Quiet ((throw fault : Step α) >>= second) :=
  fun _ before => .refl before

theorem quiet_get_bind {second : Context → Step β} (h : ∀ context, Quiet (second context)) :
    Quiet (get >>= second) :=
  fun schema before => h before schema before

theorem quiet_read_bind {second : Schema → Step β} (h : ∀ schema, Quiet (second schema)) :
    Quiet (read >>= second) :=
  fun schema before => h schema schema before

theorem quiet_modify {change : Context → Context}
    (h : ∀ context : Context, context.NotesAlike (change context)) : Quiet (modify change) :=
  fun _ before => h before

theorem quiet_modify_bind {change : Context → Context} {second : Unit → Step β}
    (h : ∀ context : Context, context.NotesAlike (change context)) (hsecond : Quiet (second ())) :
    Quiet (modify change >>= second) :=
  quiet_bind (quiet_modify h) fun _ => hsecond

/-- A change that fails leaves the state as it was. -/
theorem quiet_change {γ : Type} {check : Context → Except Fault γ} {put : Context → γ → Context}
    (h : ∀ context value, Context.NotesAlike context (put context value)) :
    Quiet (Step.change fun context => (check context).map (put context)) := by
  intro schema before
  unfold Step.change
  rw [run_get_bind]
  dsimp only
  cases check before with
  | error fault => exact .refl before
  | ok value => exact h before value

theorem quiet_ofExcept (check : Except Fault α) : Quiet (ofExcept check) := by
  cases check with
  | ok value => exact quiet_pure value
  | error fault => exact quiet_throw fault

theorem quiet_comply (violated : Bool) (breach : Breach) : Quiet (comply violated breach) :=
  quiet_of_stays fun _ _ => stays_comply violated breach

theorem quiet_under {resolver : Resolver} {step : Step α} (h : Quiet step) :
    Quiet (under resolver step) := by
  intro schema before
  rw [run_under]
  have hnotes := h schema (before.pushResolver resolver)
  exact ⟨hnotes.style?, hnotes.advisories⟩

/-! ## Making from elements -/

theorem drawUid_quiet : Quiet drawUid := fun _ _ => ⟨rfl, rfl⟩

theorem drawAlias_quiet : Quiet drawAlias := fun _ _ => ⟨rfl, rfl⟩

theorem newBinding_quiet (alias? : Option String) (type : TypeDescriptor) :
    Quiet (newBinding alias? type) := by
  cases alias? with
  | some aliasName => exact quiet_bind drawUid_quiet fun _ => quiet_pure _
  | none =>
    exact quiet_bind drawAlias_quiet fun _ => quiet_bind drawUid_quiet fun _ => quiet_pure _

theorem openSpace_quiet : Quiet openSpace := by
  intro schema before
  unfold openSpace
  rw [run_get_bind]
  cases before.levels.openSpace with
  | error fault => exact .refl before
  | ok opened => exact ⟨rfl, rfl⟩

theorem updateSpace_quiet (id : SpaceId) (change : OpenSpace → Except Fault OpenSpace) :
    Quiet (updateSpace id change) :=
  quiet_change fun _ _ => ⟨rfl, rfl⟩

theorem registerElement_quiet (element : FromElement) : Quiet (registerElement element) :=
  quiet_modify_bind (fun _ => ⟨rfl, rfl⟩) (quiet_change fun _ _ => ⟨rfl, rfl⟩)

theorem bindSelection_quiet (position : Nat) (selection : Resolved.Selection) :
    Quiet (bindSelection position selection) :=
  quiet_change fun _ _ => ⟨rfl, rfl⟩

theorem attach_quiet (space : SpaceId) (element : FromElement) : Quiet (attach space element) :=
  quiet_bind (updateSpace_quiet _ _) fun _ => registerElement_quiet element

theorem makeRoot_quiet (space : SpaceId) (entity : EntityReference) (alias? : Option String) :
    Quiet (makeRoot space entity alias?) :=
  quiet_bind (newBinding_quiet _ _) fun _ => quiet_bind (updateSpace_quiet _ _) fun _ =>
    quiet_bind (registerElement_quiet _) fun _ => quiet_pure _

theorem crossJoin_quiet (space : SpaceId) (entity : EntityReference) (alias? : Option String) :
    Quiet (crossJoin space entity alias?) :=
  quiet_bind (quiet_of_stays fun _ _ => ensureMapped_stays entity .cross) fun _ =>
    quiet_bind (newBinding_quiet _ _) fun _ => quiet_bind (attach_quiet _ _) fun _ => quiet_pure _

theorem entityJoin_quiet (space : SpaceId) (alias? : Option String) (entity : EntityReference)
    (joinType : JoinType) : Quiet (entityJoin space alias? entity joinType) :=
  quiet_bind (quiet_of_stays fun _ _ => ensureMapped_stays entity .entity) fun _ =>
    quiet_bind (newBinding_quiet _ _) fun _ => quiet_bind (attach_quiet _ _) fun _ => quiet_pure _

theorem newAttributeJoin_quiet (request : JoinRequest) (declared : Attribute) :
    Quiet (newAttributeJoin request declared) := by
  rw [newAttributeJoin_eq]
  refine quiet_bind (quiet_of_stays fun _ _ => attributeType_stays _) fun type => ?_
  dsimp only
  split
  · exact quiet_throw_bind _ _
  -- What is narrowed and what is remembered are neither styles nor advisories.
  exact quiet_bind (newBinding_quiet _ _) fun binding =>
    quiet_modify_bind (fun _ => ⟨rfl, rfl⟩)
      (quiet_bind (attach_quiet _ _) fun _ => quiet_pure _)

theorem attributeJoin_quiet (request : JoinRequest) : Quiet (attributeJoin request) := by
  refine quiet_bind (quiet_of_stays fun _ _ => joinableAttribute_stays request)
    fun declared => ?_
  split
  · refine quiet_get_bind fun context => ?_
    split
    · exact quiet_pure _
    · exact newAttributeJoin_quiet _ _
  · exact newAttributeJoin_quiet _ _

/-! ## Paths -/

theorem joinBeside_quiet (source : FromElement) (declared? : Option Attribute) (place : String) :
    Quiet (joinBeside source declared? place) := by
  refine quiet_get_bind fun context => ?_
  dsimp only
  split
  · exact quiet_throw_bind _ _
  split
  · exact quiet_throw _
  · exact attributeJoin_quiet _

theorem implicitJoin_quiet (source : FromElement) (name place : String) (last : Bool) :
    Quiet (implicitJoin source name place last) := by
  unfold implicitJoin
  dsimp only
  split
  · refine quiet_bind (quiet_of_stays fun _ _ => attributeType_stays _) fun _ => ?_
    exact quiet_bind (quiet_ofExcept _) fun _ => joinBeside_quiet _ _ _
  · exact joinBeside_quiet _ _ _

theorem joinAlong_quiet (source : FromElement) (place : String) (names : List String) :
    Quiet (joinAlong source place names) := by
  induction names generalizing source place with
  | nil => exact quiet_pure _
  | cons name names ih => exact quiet_bind (implicitJoin_quiet _ _ _ _) fun _ => ih _ _

theorem joinThrough_quiet (source : FromElement) (names : List String) :
    Quiet (joinThrough source names) := by
  induction names generalizing source with
  | nil => exact quiet_pure _
  | cons name names ih => exact quiet_bind (implicitJoin_quiet _ _ _ _) fun _ => ih _

theorem fromElementParts_quiet (parts : List String) (path : DottedName) :
    Quiet (fromElementParts parts path) := by
  cases parts with
  | nil => exact quiet_throw _
  | cons first names =>
    refine quiet_get_bind fun context => ?_
    split
    · exact quiet_throw _
    · exact quiet_bind (quiet_of_stays fun _ _ => checkReach_stays _) fun _ =>
        joinAlong_quiet _ _ _

theorem fromElementPath_quiet (path : DottedName) : Quiet (fromElementPath path) :=
  fromElementParts_quiet _ _

theorem attributeReference_quiet (source : Resolved.PathSource) (type : TypeDescriptor)
    (name : String) (path : DottedName) : Quiet (attributeReference source type name path) :=
  quiet_of_stays fun _ _ => attributeReference_stays source type name path

theorem navigate_quiet (element : FromElement) (names : List String) (path : DottedName) :
    Quiet (navigate element names path) := by
  refine quiet_bind (quiet_of_stays fun _ _ => checkReach_stays _) fun _ => ?_
  split
  · exact quiet_pure _
  refine quiet_get_bind fun context => ?_
  split
  · refine quiet_bind (quiet_of_stays fun _ _ => composites_stays _ _ _ _ _)
      fun reached => ?_
    exact quiet_bind (attributeReference_quiet _ _ _ _) fun _ => quiet_pure _
  · refine quiet_bind (joinThrough_quiet _ _) fun source => ?_
    exact quiet_bind (attributeReference_quiet _ _ _ _) fun _ => quiet_pure _

theorem path_quiet (dotted : DottedName) : Quiet (path dotted) := by
  unfold path
  split
  · exact quiet_throw _
  refine quiet_get_bind fun context => quiet_read_bind fun schema => ?_
  split
  · exact navigate_quiet _ _ _
  split
  · exact quiet_pure _
  split
  · exact quiet_pure _
  refine quiet_bind (quiet_ofExcept _) fun owner? => ?_
  split
  · exact navigate_quiet _ _ _
  · exact quiet_throw _

theorem pathOrCall_quiet (dotted : DottedName) : Quiet (pathOrCall dotted) := by
  refine quiet_get_bind fun context => ?_
  split
  · exact quiet_pure _
  · exact path_quiet dotted

theorem indexed_quiet (base : DottedName) (index : Resolved.Expression)
    (remainder : Option DottedName) : Quiet (indexed base index remainder) := by
  refine quiet_bind (path_quiet base) fun attained => ?_
  split
  · split
    · dsimp only
      split
      · exact quiet_pure _
      · exact quiet_under (quiet_of_stays fun _ _ => navigateIndexed_stays _ _)
    · exact quiet_throw _
  · exact quiet_throw _

theorem treatTarget_quiet (name : DottedName) : Quiet (treatTarget name) :=
  quiet_of_stays fun _ _ => treatTarget_stays name

theorem treat_quiet (element : FromElement) (target : DottedName) :
    Quiet (treat element target) := by
  refine quiet_bind (treatTarget_quiet target) fun entity => ?_
  have hnarrow : Quiet (do
      modify fun context => context.narrow element.uid entity
      let uid ← drawUid
      let narrowed :=
        FromElement.treated ⟨uid, element.aliasName, element.binding.generated, entity.type⟩ element
      modify fun context => context.register narrowed
      return narrowed) :=
    quiet_modify_bind (fun _ => ⟨rfl, rfl⟩) <| quiet_bind drawUid_quiet fun uid =>
      quiet_modify_bind (fun _ => ⟨rfl, rfl⟩) (quiet_pure _)
  dsimp only
  split
  · split
    · exact quiet_throw_bind _ _
    · exact hnarrow
  · exact hnarrow

theorem treated_quiet (base target : DottedName) (remainder : Option DottedName) :
    Quiet (treated base target remainder) := by
  refine quiet_bind (fromElementPath_quiet base) fun element => ?_
  refine quiet_bind (treat_quiet element target) fun narrowed => ?_
  split
  · exact quiet_pure _
  · exact navigate_quiet _ _ _

theorem mapEntry_quiet (function : MapFunction) (argument : DottedName) :
    Quiet (mapEntry function argument) := by
  refine quiet_bind (fromElementPath_quiet argument) fun join => ?_
  split
  · exact quiet_pure _
  · exact quiet_bind (quiet_comply _ _) fun _ => quiet_pure _
  · exact quiet_pure _
  · exact quiet_pure _
  · exact quiet_throw _

theorem indexOfJoin_quiet (argument : Phrase.Expression) : Quiet (indexOfJoin argument) := by
  unfold indexOfJoin
  split
  · refine quiet_bind (fromElementPath_quiet _) fun join => ?_
    split
    · exact quiet_pure _
    · exact quiet_throw _
  · exact quiet_throw _

/-! ## From clauses -/

theorem checkVariable_quiet (alias? : Option String) : Quiet (checkVariable alias?) :=
  quiet_of_stays fun _ _ => checkVariable_stays alias?

theorem entity_quiet (name : DottedName) : Quiet (entity name) :=
  quiet_of_stays fun _ _ => entity_stays name

theorem root_quiet (space : SpaceId) (written : Phrase.Root) : Quiet (root space written) := by
  refine quiet_bind (entity_quiet _) fun entity => ?_
  have hmake : Quiet (do
      checkVariable written.alias?
      makeRoot space entity written.alias?) :=
    quiet_bind (checkVariable_quiet _) fun _ => makeRoot_quiet _ _ _
  dsimp only
  split
  · refine quiet_bind (quiet_comply _ _) fun _ => ?_
    split
    · exact quiet_throw_bind _ _
    · exact hmake
  · exact hmake

theorem explicitJoin_quiet (space : SpaceId) (path : DottedName) (alias? : Option String)
    (narrowed? : Option EntityReference) (joinType : JoinType) (fetched : Bool) :
    Quiet (explicitJoin space path alias? narrowed? joinType fetched) := by
  unfold explicitJoin
  split
  · exact quiet_throw _
  dsimp only
  split
  · exact quiet_throw_bind _ _
  · exact quiet_bind (fromElementParts_quiet _ _) fun source => attributeJoin_quiet _

theorem joinTarget_quiet (space : SpaceId) (target : Phrase.JoinTarget) (alias? : Option String)
    (joinType : JoinType) (fetched : Bool) :
    Quiet (joinTarget space target alias? joinType fetched) := by
  unfold joinTarget
  split
  · refine quiet_get_bind fun context => ?_
    split
    · exact quiet_bind (entity_quiet _) fun entity => entityJoin_quiet _ _ _ _
    · exact explicitJoin_quiet _ _ _ _ _ _
  · exact quiet_bind (treatTarget_quiet _) fun narrowed => explicitJoin_quiet _ _ _ _ _ _

theorem checkMember_quiet (path : DottedName) : Quiet (checkMember path) := by
  unfold checkMember
  split
  · exact quiet_pure _
  split
  · refine quiet_bind (fromElementParts_quiet _ _) fun source => ?_
    split
    · exact quiet_throw _
    · exact quiet_pure _
  · exact quiet_pure _

theorem memberJoin_quiet (space : SpaceId) (path : DottedName) (alias? : Option String) :
    Quiet (memberJoin space path alias?) :=
  quiet_bind (checkVariable_quiet _) fun _ => quiet_bind (checkMember_quiet _) fun _ =>
    quiet_bind (explicitJoin_quiet _ _ _ _ _ _) fun _ => quiet_pure _

/-! ## Bulk statements -/

theorem bulkTarget_quiet (written : Phrase.Root) : Quiet (bulkTarget written) := by
  refine quiet_bind openSpace_quiet fun id => quiet_bind (root_quiet id written) fun element => ?_
  dsimp only
  split
  · exact quiet_throw_bind _ _
  · exact quiet_pure _

theorem stateField_quiet (field : DottedName) : Quiet (stateField field) := by
  refine quiet_bind (path_quiet field) fun attained => ?_
  split
  · exact quiet_pure _
  · exact quiet_throw _

theorem mapM_quiet {items : List β} {visit : β → Step α} (h : ∀ item, Quiet (visit item)) :
    Quiet (items.mapM visit) := by
  induction items with
  | nil =>
    rw [List.mapM_nil]
    exact quiet_pure _
  | cons item items ih =>
    rw [List.mapM_cons]
    exact quiet_bind (h item) fun _ => quiet_bind ih fun _ => quiet_pure _

end Step
end EntityQuery.Interpretation

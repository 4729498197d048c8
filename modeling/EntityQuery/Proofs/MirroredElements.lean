import EntityQuery.Proofs.BuiltElements
import EntityQuery.Proofs.ReboundStates

/-!
# Elements made in both states

An element that is made in a state and in the state with other types for some roots is the same
element, made for the same number: what it starts from has another type in the second state, but
declares the attribute that is joined.

* `Step.attach_mirrors`: registration.
* `Step.makeRoot_mirrors`, `Step.crossJoin_mirrors`, `Step.entityJoin_mirrors`: elements of an
  entity.
* `Step.attributeJoin_mirrors`: joins through an attribute.
-/

namespace EntityQuery.Interpretation

namespace Step

variable {schema : Schema} {choice : Choice} {before : Context}

/-! ## Bindings -/

theorem attributeType_mirrors (hfits : before.Fits choice) (declared : Attribute) :
    Mirrors Eq schema choice before (attributeType declared) (attributeType declared) := by
  refine together_read_bind ?_
  cases schema.resolve? declared.type with
  | none => exact together_throw _ _
  | some type => exact mirrors_pure hfits rfl

/-- A new number is the same in both states, and no other type was chosen for it. -/
theorem drawUid_mirrors (hfits : before.Fits choice) :
    Mirrors (fun uid uid' => uid' = uid ∧ choice uid = none) schema choice before drawUid drawUid :=
  together_drawUid ⟨⟨rfl, hfits.none_of_le (Nat.le_refl _)⟩, rfl,
    .idle (hfits.idle (Nat.le_succ _) rfl rfl) rfl⟩

theorem drawAlias_mirrors (hfits : before.Fits choice) :
    Mirrors Eq schema choice before drawAlias drawAlias :=
  together_drawAlias ⟨rfl, rfl, .idle (hfits.idle (Nat.le_refl _) rfl rfl) rfl⟩

theorem newBinding_mirrors (hfits : before.Fits choice) (alias? : Option String)
    (type : TypeDescriptor) :
    Mirrors (fun binding binding' => binding' = binding ∧ choice binding.uid = none) schema choice
      before (newBinding alias? type) (newBinding alias? type) := by
  cases alias? with
  | some aliasName =>
    refine mirrors_bind (drawUid_mirrors hfits) ?_
    rintro _ uid between ⟨rfl, hfree⟩ hfits
    exact mirrors_pure hfits ⟨rfl, hfree⟩
  | none =>
    refine mirrors_bind (drawAlias_mirrors hfits) ?_
    rintro aliasName _ between rfl hfits
    refine mirrors_bind (drawUid_mirrors hfits) ?_
    rintro _ uid between ⟨rfl, hfree⟩ hfits
    exact mirrors_pure hfits ⟨rfl, hfree⟩

/-! ## Registration -/

theorem updateSpace_mirrors (hfits : before.Fits choice) (id : SpaceId)
    {change change' : OpenSpace → Except Fault OpenSpace}
    (hchange : ∀ space filled filled', change space = .ok filled →
      change' (space.rebound choice) = .ok filled' → filled' = filled.rebound choice) :
    Mirrors (fun _ _ => True) schema choice before (updateSpace id change)
      (updateSpace id change') := by
  refine together_updateSpace fun levels levels' hupdate hupdate' => ⟨trivial, ?_, ?_⟩
  · rw [Levels.update_rebound hchange hupdate hupdate']
    rfl
  · exact .idle (hfits.idle (Nat.le_refl _) rfl rfl) rfl

theorem openSpace_mirrors (hfits : before.Fits choice) :
    Mirrors (fun id id' => id' = id) schema choice before openSpace openSpace := by
  refine together_openSpace fun id levels id' levels' hopen hopen' => ?_
  obtain ⟨rfl, rfl⟩ := Levels.openSpace_rebound hopen hopen'
  exact ⟨rfl, rfl, .idle (hfits.idle (Nat.le_refl _) rfl rfl) rfl⟩

theorem registerElement_mirrors (hfits : before.Fits choice) {element : FromElement}
    (hcovered : element.Covered choice)
    (houtermost : Outermost choice (Trail.frames (.element element :: before.trail))) :
    Mirrors (fun _ _ => True) schema choice before (registerElement element)
      (registerElement (element.rebound choice)) := by
  refine together_registerElement fun trail trail' hbind hbind' => ⟨trivial, ?_, ?_⟩
  · obtain ⟨rfl, -⟩ := Trail.bind_ok hbind
    obtain ⟨rfl, -⟩ := Trail.bind_ok hbind'
    rfl
  · obtain ⟨rfl, -⟩ := Trail.bind_ok hbind
    refine ⟨(hfits.register hcovered).bind hcovered houtermost, [.element element], rfl,
      fun mark hmark => ?_⟩
    rw [List.mem_singleton.mp hmark]
    rfl

/-- An element that keeps its type is registered in both states. -/
theorem registerFree_mirrors (hfits : before.Fits choice) {element : FromElement}
    (hfree : choice element.uid = none) :
    Mirrors (fun _ _ => True) schema choice before (registerElement element)
      (registerElement (element.rebound choice)) :=
  registerElement_mirrors hfits (FromElement.covered_of_none hfree) (hfits.outermost_bind hfree)

theorem attach_mirrors (hfits : before.Fits choice) (id : SpaceId) {element : FromElement}
    (hfree : choice element.uid = none) :
    Mirrors (fun _ _ => True) schema choice before (attach id element)
      (attach id (element.rebound choice)) := by
  refine mirrors_bind (updateSpace_mirrors hfits id fun space filled filled' hadd hadd' => ?_)
    fun _ _ between _ hbetween => registerFree_mirrors hbetween hfree
  cases space with
  | vacant => cases hadd
  | rooted root joins =>
    cases hadd
    cases hadd'
    rw [OpenSpace.rebound, List.map_append, List.map_singleton, Resolved.Join.rebuilt_mk]
    rfl

/-! ## Elements of an entity -/

theorem binding_rebound {binding : Binding} (hfree : choice binding.uid = none) :
    binding.rebound choice = binding := by
  rw [Binding.rebound, hfree]
  rfl

/-- A root is put into its space and registered. -/
theorem placeRoot_mirrors (hfits : before.Fits choice) (id : SpaceId) {element : FromElement}
    (hcovered : element.Covered choice)
    (houtermost : Outermost choice (Trail.frames (.element element :: before.trail))) :
    Mirrors (fun root root' => root = element ∧ root' = element.rebound choice) schema choice before
      (do
        updateSpace id fun open? => open?.setRoot element
        registerElement element
        return element)
      (do
        updateSpace id fun open? => open?.setRoot (element.rebound choice)
        registerElement (element.rebound choice)
        return element.rebound choice) := by
  refine together_bind (Q := fun _ _ after after' => after' = after.rebound choice
    ∧ after.Fits choice ∧ after.trail = before.trail) (together_updateSpace ?_) ?_
  · intro levels levels' hupdate hupdate'
    have hset : ∀ space filled filled' : OpenSpace, space.setRoot element = .ok filled →
        (space.rebound choice).setRoot (element.rebound choice) = .ok filled' →
        filled' = filled.rebound choice := by
      intro space filled filled' hset hset'
      cases space with
      | vacant =>
        cases hset
        cases hset'
        rfl
      | rooted root joins => cases hset
    rw [Levels.update_rebound hset hupdate hupdate']
    exact ⟨rfl, hfits.idle (Nat.le_refl _) rfl rfl, rfl⟩
  rintro _ _ between _ ⟨rfl, hfits, htrail⟩
  rw [← htrail] at houtermost
  refine together_bind (registerElement_mirrors hfits hcovered houtermost) ?_
  rintro _ _ after _ ⟨-, rfl, hfollows⟩
  refine together_pure ⟨⟨rfl, rfl⟩, rfl, hfollows.fits, ?_⟩
  rw [← htrail]
  exact hfollows.elementMarks

theorem makeRoot_mirrors (hfits : before.Fits choice) (id : SpaceId) (entity : EntityReference)
    (alias? : Option String) :
    Mirrors (Meets choice) schema choice before (makeRoot id entity alias?)
      (makeRoot id entity alias?) := by
  refine mirrors_bind (newBinding_mirrors hfits alias? entity.type) ?_
  rintro _ binding between ⟨rfl, hfree⟩ hfits
  have hform : (FromElement.root binding).rebound choice = .root binding :=
    congrArg FromElement.root (binding_rebound hfree)
  have hcovered : (FromElement.root binding).Covered choice := FromElement.covered_of_none hfree
  have hplace : Mirrors _ schema choice between _ _ :=
    placeRoot_mirrors hfits id hcovered (hfits.outermost_bind hfree)
  rw [hform] at hplace
  refine together_mono hplace ?_
  rintro root root' after after' ⟨⟨rfl, rfl⟩, hafter, hfollows⟩
  exact ⟨⟨hform.symm, hcovered⟩, hafter, hfollows⟩

/-- A join of an entity is made of its binding alone. -/
theorem entityElement_mirrors (hfits : before.Fits choice) (id : SpaceId)
    (entity : EntityReference) (form : EntityJoinForm) (alias? : Option String)
    (make : Binding → FromElement) (hbinding : ∀ binding, (make binding).binding = binding)
    (hmake : ∀ binding, (make binding).rebound choice = make (binding.rebound choice)) :
    Mirrors (Meets choice) schema choice before
      (do
        ensureMapped entity form
        let element := make (← newBinding alias? entity.type)
        attach id element
        return element)
      (do
        ensureMapped entity form
        let element := make (← newBinding alias? entity.type)
        attach id element
        return element) := by
  have hmapped : Mirrors (fun _ _ => True) schema choice before (ensureMapped entity form)
      (ensureMapped entity form) := by
    unfold ensureMapped
    split
    · exact together_throw _ _
    · exact mirrors_pure hfits trivial
  refine mirrors_bind hmapped ?_
  rintro _ _ between _ hfits
  refine mirrors_bind (newBinding_mirrors hfits alias? entity.type) ?_
  rintro _ binding between ⟨rfl, hfree⟩ hfits
  have hform : (make binding).rebound choice = make binding := by
    rw [hmake, binding_rebound hfree]
  have huid : choice (make binding).uid = none := by
    rw [FromElement.uid, hbinding]
    exact hfree
  have hattach : Mirrors (fun _ _ => True) schema choice between (attach id (make binding))
      (attach id ((make binding).rebound choice)) := attach_mirrors hfits id huid
  rw [hform] at hattach
  refine mirrors_bind hattach ?_
  rintro _ _ after _ hfits
  exact mirrors_pure hfits ⟨hform.symm, FromElement.covered_of_none huid⟩

theorem crossJoin_mirrors (hfits : before.Fits choice) (id : SpaceId) (entity : EntityReference)
    (alias? : Option String) :
    Mirrors (Meets choice) schema choice before (crossJoin id entity alias?)
      (crossJoin id entity alias?) :=
  entityElement_mirrors hfits id entity .cross alias? .crossJoin (fun _ => rfl) fun _ => rfl

theorem entityJoin_mirrors (hfits : before.Fits choice) (id : SpaceId) (alias? : Option String)
    (entity : EntityReference) (joinType : JoinType) :
    Mirrors (Meets choice) schema choice before (entityJoin id alias? entity joinType)
      (entityJoin id alias? entity joinType) :=
  entityElement_mirrors hfits id entity .entity alias? (fun binding => .entityJoin binding joinType)
    (fun _ => rfl) fun _ => rfl

/-! ## Joins through attributes -/

/-- The request from the source with the chosen types, which may declare more attributes. -/
def joinRequest (choice : Choice) (request : JoinRequest) (declared? : Option Attribute) :
    JoinRequest :=
  { request with source := request.source.rebound choice, declared? }

theorem newAttributeJoin_mirrors (hfits : before.Fits choice) (request : JoinRequest)
    (declared? : Option Attribute) (declared : Attribute) :
    Mirrors (Meets choice) schema choice before (newAttributeJoin request declared)
      (newAttributeJoin (joinRequest choice request declared?) declared) := by
  rw [newAttributeJoin_eq, newAttributeJoin_eq]
  refine mirrors_bind (attributeType_mirrors hfits declared) ?_
  rintro type _ between rfl hfits
  dsimp only
  split
  · exact together_throw_bind _ _ _
  refine mirrors_bind (newBinding_mirrors hfits request.alias? _) ?_
  rintro _ binding between ⟨rfl, hfree⟩ hfits
  -- The number of the source and all else that is noted are the same in both states.
  have hnoted : noteJoin (joinRequest choice request declared?) declared binding.uid
      = noteJoin request declared binding.uid := by
    unfold noteJoin joinRequest
    rw [FromElement.uid_rebound]
  have hform : requested (joinRequest choice request declared?) declared type binding
      = (requested request declared type binding).rebound choice := by
    have hbinding : binding = binding.rebound choice := (binding_rebound hfree).symm
    exact congrArg (FromElement.attributeJoin · _ _) hbinding
  rw [hnoted, hform]
  refine mirrors_bind (mirrors_modify hfits rfl (Nat.le_refl _) rfl rfl) ?_
  rintro _ _ between _ hfits
  refine mirrors_bind (attach_mirrors hfits request.space hfree) ?_
  rintro _ _ after _ hafter
  exact mirrors_pure hafter ⟨rfl, FromElement.covered_of_none hfree⟩

/-- The source declares the attribute that is joined in both states. -/
theorem attributeJoin_mirrors (hfits : before.Fits choice) (request : JoinRequest)
    {declared? : Option Attribute}
    (hdeclared : ∀ declared, request.declared? = some declared → declared? = some declared) :
    Mirrors (Meets choice) schema choice before (attributeJoin request)
      (attributeJoin (joinRequest choice request declared?)) := by
  have hjoinable : Mirrors (fun declared declared' => declared' = declared) schema choice before
      (joinableAttribute request) (joinableAttribute (joinRequest choice request declared?)) := by
    refine ends_joinableAttribute fun declared hsome _ =>
      ends_joinableAttribute fun declared' hsome' _ => ⟨?_, rfl, .refl hfits⟩
    have hsame : declared? = some declared' := hsome'
    rw [hdeclared declared hsome] at hsame
    exact (Option.some.inj hsame).symm
  refine mirrors_bind hjoinable ?_
  rintro _ declared between rfl hfits
  have hnew : Mirrors (Meets choice) schema choice between (newAttributeJoin request declared)
      (newAttributeJoin (joinRequest choice request declared?) declared) :=
    newAttributeJoin_mirrors hfits request declared? declared
  have himplicit : (joinRequest choice request declared?).implicit = request.implicit := rfl
  have hsource : (joinRequest choice request declared?).source.uid = request.source.uid :=
    FromElement.uid_rebound
  rw [himplicit, hsource]
  split
  · refine together_get_bind ?_
    rw [Context.implicitJoin?_rebound]
    cases hknown : between.implicitJoin? request.source.uid declared.name with
    | none => exact hnew
    | some known =>
      obtain ⟨found, -, hfind⟩ := Option.bind_eq_some_iff.mp hknown
      refine mirrors_pure hfits ⟨rfl, hfits.registered known ?_⟩
      exact List.mem_of_find?_eq_some hfind
  · exact hnew

end Step
end EntityQuery.Interpretation

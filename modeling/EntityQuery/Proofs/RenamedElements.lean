import EntityQuery.Proofs.CorrespondingRuns

/-!
# Elements with other variables

Making an element for another variable makes the element with the other variable: a binding differs
in its name only, and so does everything that is put into a space or registered.

* `Renaming.Pairs`: a known element, and it with other variables.
* `Step.makeRoot_renamed`, `Step.crossJoin_renamed`, `Step.entityJoin_renamed`: entities.
* `Step.attributeJoin_renamed`: joins through attributes, written or implicit.
-/

namespace EntityQuery

open Interpretation

variable {schema : Schema}

namespace Schema.Gives

/-- What a join ranges over has a type of the domain if what it is narrowed to has one. -/
theorem joinedType {type : TypeDescriptor} (htype : schema.Gives type)
    {narrowed? : Option EntityReference}
    (hnarrowed : ∀ entity ∈ narrowed?, schema.Gives entity.type) :
    schema.Gives (joinedType narrowed? type) := by
  cases narrowed? with
  | some entity => exact hnarrowed entity rfl
  | none =>
    rw [Interpretation.joinedType]
    cases helement : type.element? with
    | none => exact htype
    | some element => exact .element htype helement

end Schema.Gives

/-- A known element, and the same element with other variables. -/
def Renaming.Pairs (ρ : Renaming schema) (element element' : FromElement) : Prop :=
  element' = element.renamed ρ.rename ∧ ρ.Knows element

namespace Interpretation

/-- The request with other variables. -/
def JoinRequest.renamed (rename : String → String) (request : JoinRequest) : JoinRequest :=
  { request with
    alias? := request.alias?.map rename
    path := renamedText rename request.path
    source := request.source.renamed rename }

/-- The variables of the request are admitted and its types are of the domain. -/
structure JoinRequest.Known (ρ : Renaming schema) (request : JoinRequest) : Prop where
  aliasName : ∀ name ∈ request.alias?, ρ.Bound name
  narrowed : ∀ entity ∈ request.narrowed?, schema.Gives entity.type
  source : ρ.Knows request.source

namespace Step

variable {ρ : Renaming schema}

/-! ## Entities -/

theorem attributeType_renamed (declared : Attribute) :
    Corresponds ρ (fun type type' => type' = type ∧ schema.Gives type) (attributeType declared)
      (attributeType declared) := by
  refine corresponds_read_bind ?_
  cases htype : schema.resolve? declared.type with
  | none => exact corresponds_throw rfl
  | some type => exact corresponds_pure ⟨rfl, .declared htype⟩

theorem newBinding_renamed {alias? : Option String} (hname : ∀ name ∈ alias?, ρ.Bound name)
    (type : TypeDescriptor) :
    Corresponds ρ (fun binding binding' => binding' = binding.renamed ρ.rename
        ∧ ρ.Bound binding.aliasName ∧ binding.type = type)
      (newBinding alias? type) (newBinding (alias?.map ρ.rename) type) := by
  cases alias? with
  | some aliasName =>
    refine corresponds_bind corresponds_drawUid ?_
    rintro uid _ rfl
    exact corresponds_pure ⟨rfl, hname aliasName rfl, rfl⟩
  | none =>
    refine corresponds_bind corresponds_drawAlias ?_
    rintro aliasName _ ⟨rfl, hbound⟩
    refine corresponds_bind corresponds_drawUid ?_
    rintro uid _ rfl
    exact corresponds_pure ⟨rfl, hbound, rfl⟩

theorem attach_renamed (id : SpaceId) {element : FromElement} (helement : ρ.Knows element) :
    Corresponds ρ (fun _ _ => True) (attach id element)
      (attach id (element.renamed ρ.rename)) :=
  corresponds_bind (corresponds_updateSpace id fun space => space.addJoin_renamed element)
    fun _ _ _ => corresponds_registerElement helement

theorem makeRoot_renamed (id : SpaceId) {entity : EntityReference}
    (hentity : schema.Gives entity.type) {alias? : Option String}
    (hname : ∀ name ∈ alias?, ρ.Bound name) :
    Corresponds ρ ρ.Pairs (makeRoot id entity alias?)
      (makeRoot id entity (alias?.map ρ.rename)) := by
  refine corresponds_bind (newBinding_renamed hname entity.type) ?_
  rintro binding _ ⟨rfl, hbound, htype⟩
  have hgiven : schema.Gives binding.type := htype ▸ hentity
  have helement : ρ.Knows (.root binding) := ⟨hbound, hgiven⟩
  refine corresponds_bind (corresponds_updateSpace id fun space =>
    space.setRoot_renamed (.root binding)) fun _ _ _ => ?_
  exact corresponds_bind (corresponds_registerElement helement)
    fun _ _ _ => corresponds_pure ⟨rfl, helement⟩

theorem ensureMapped_renamed (entity : EntityReference) (form : EntityJoinForm) :
    Corresponds ρ (fun _ _ => True) (ensureMapped entity form) (ensureMapped entity form) := by
  unfold ensureMapped
  split
  · exact corresponds_throw rfl
  · exact corresponds_pure trivial

/-- A join of an entity is made of its binding alone. -/
theorem entityElement_renamed (id : SpaceId) {entity : EntityReference}
    (hentity : schema.Gives entity.type) (form : EntityJoinForm) {alias? : Option String}
    (hname : ∀ name ∈ alias?, ρ.Bound name) (make : Binding → FromElement)
    (hbinding : ∀ binding, (make binding).binding = binding)
    (hmake : ∀ binding, (make binding).renamed ρ.rename = make (binding.renamed ρ.rename)) :
    Corresponds ρ ρ.Pairs
      (do
        ensureMapped entity form
        let element := make (← newBinding alias? entity.type)
        attach id element
        return element)
      (do
        ensureMapped entity form
        let element := make (← newBinding (alias?.map ρ.rename) entity.type)
        attach id element
        return element) := by
  refine corresponds_bind (ensureMapped_renamed entity form) fun _ _ _ => ?_
  refine corresponds_bind (newBinding_renamed hname entity.type) ?_
  rintro binding _ ⟨rfl, hbound, htype⟩
  rw [← hmake binding]
  have helement : ρ.Knows (make binding) := by
    constructor
    · rw [FromElement.aliasName, hbinding]
      exact hbound
    · rw [FromElement.type, hbinding, htype]
      exact hentity
  exact corresponds_bind (attach_renamed id helement)
    fun _ _ _ => corresponds_pure ⟨rfl, helement⟩

theorem crossJoin_renamed (id : SpaceId) {entity : EntityReference}
    (hentity : schema.Gives entity.type) {alias? : Option String}
    (hname : ∀ name ∈ alias?, ρ.Bound name) :
    Corresponds ρ ρ.Pairs (crossJoin id entity alias?)
      (crossJoin id entity (alias?.map ρ.rename)) :=
  entityElement_renamed id hentity .cross hname .crossJoin (fun _ => rfl) fun _ => rfl

theorem entityJoin_renamed (id : SpaceId) {entity : EntityReference}
    (hentity : schema.Gives entity.type) (joinType : JoinType) {alias? : Option String}
    (hname : ∀ name ∈ alias?, ρ.Bound name) :
    Corresponds ρ ρ.Pairs (entityJoin id alias? entity joinType)
      (entityJoin id (alias?.map ρ.rename) entity joinType) :=
  entityElement_renamed id hentity .entity hname (fun binding => .entityJoin binding joinType)
    (fun _ => rfl) fun _ => rfl

/-! ## Joins through attributes -/

theorem joinableAttribute_renamed (request : JoinRequest) :
    Corresponds ρ Eq (joinableAttribute request)
      (joinableAttribute (request.renamed ρ.rename)) := by
  have hfetched : (request.renamed ρ.rename).fetched = request.fetched := rfl
  have himplicit : (request.renamed ρ.rename).implicit = request.implicit := rfl
  have haliased : (request.renamed ρ.rename).alias?.isSome = request.alias?.isSome :=
    Option.isSome_map
  have hdeclared : (request.renamed ρ.rename).declared? = request.declared? := rfl
  have hpolymorphic : (request.renamed ρ.rename).source.isPolymorphic
      = request.source.isPolymorphic := FromElement.isPolymorphic_renamed
  unfold joinableAttribute
  dsimp only
  rw [hfetched, himplicit, haliased, hdeclared, hpolymorphic]
  by_cases hfetch : (request.fetched && request.implicit) = true
  · rw [if_pos hfetch, if_pos hfetch]
    exact corresponds_throw_bind rfl
  rw [if_neg hfetch, if_neg hfetch]
  by_cases hnamed : (request.alias?.isSome && request.implicit) = true
  · rw [if_pos hnamed, if_pos hnamed]
    exact corresponds_throw_bind rfl
  rw [if_neg hnamed, if_neg hnamed]
  cases request.declared? with
  | none => exact corresponds_throw rfl
  | some declared =>
    dsimp only
    split
    · exact corresponds_throw_bind rfl
    · exact corresponds_pure rfl

theorem newAttributeJoin_renamed {request : JoinRequest} (hrequest : request.Known ρ)
    (declared : Attribute) :
    Corresponds ρ ρ.Pairs (newAttributeJoin request declared)
      (newAttributeJoin (request.renamed ρ.rename) declared) := by
  rw [newAttributeJoin_eq, newAttributeJoin_eq]
  refine corresponds_bind (attributeType_renamed declared) ?_
  rintro _ type ⟨rfl, htype⟩
  dsimp only
  split
  · exact corresponds_throw_bind rfl
  refine corresponds_bind (newBinding_renamed hrequest.aliasName _) ?_
  rintro binding _ ⟨rfl, hbound, hbinding⟩
  -- What is noted of a join are numbers, which stay.
  have hnoted : noteJoin (request.renamed ρ.rename) declared binding.uid
      = noteJoin request declared binding.uid := by
    unfold noteJoin JoinRequest.renamed
    rw [FromElement.uid_renamed]
  have hgiven : schema.Gives binding.type := by
    rw [hbinding]
    exact htype.joinedType hrequest.narrowed
  have helement : ρ.Knows (requested request declared type binding) := ⟨hbound, hgiven⟩
  refine corresponds_bind (corresponds_modify fun context advisories hfits =>
    ⟨⟨hfits.trail, hfits.registered⟩, advisories, congrFun hnoted _⟩) fun _ _ _ => ?_
  exact corresponds_bind (attach_renamed request.space helement)
    fun _ _ _ => corresponds_pure ⟨rfl, helement⟩

/-- An implicit join is found again with other variables where it was found before. -/
theorem attributeJoin_renamed {request : JoinRequest} (hrequest : request.Known ρ) :
    Corresponds ρ ρ.Pairs (attributeJoin request)
      (attributeJoin (request.renamed ρ.rename)) := by
  refine corresponds_bind (joinableAttribute_renamed request) ?_
  rintro declared _ rfl
  have hnew := newAttributeJoin_renamed hrequest declared
  have himplicit : (request.renamed ρ.rename).implicit = request.implicit := rfl
  have hsource : (request.renamed ρ.rename).source.uid = request.source.uid :=
    FromElement.uid_renamed
  rw [himplicit, hsource]
  split
  · refine corresponds_get_bind fun context advisories hfits => ?_
    rw [Context.implicitJoin?_renamed]
    cases hknown : context.implicitJoin? request.source.uid declared.name with
    | none => exact hnew
    | some known => exact corresponds_pure ⟨rfl, hfits.implicitJoin? hknown⟩
  · exact hnew

end Step
end Interpretation
end EntityQuery

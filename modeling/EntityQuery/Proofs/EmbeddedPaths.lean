import EntityQuery.Proofs.EmbeddedRuns
import EntityQuery.Proofs.RebuiltTwice

/-!
# Paths of an embedded query

A path that leads somewhere in a query alone leads there within another query as well, if the name
that it begins with stands for nothing around. An element that a step makes on the way is made under
a later number and, if nothing is written, a later variable. It is put into the same space of the
query, and an implicit join that the query has made before is used again. Bare attributes belong to
the innermost query that declares them, so that those of the elements around play no part.

* `JoinRequest.embedded`: the request for a join within another query.
* `Step.makeRoot_embeds`, `Step.crossJoin_embeds`, `Step.entityJoin_embeds`: entities.
* `Step.attributeJoin_embeds`: joins through attributes, written or implicit.
* `Context.Ignores`: names that stand for nothing around.
* `Step.fromElementParts_embeds`, `Step.treat_embeds`: elements.
* `Step.navigate_embeds`, `Step.path_embeds`, `Step.indexed_embeds`, `Step.treated_embeds`:
  expressions.
-/

namespace EntityQuery.Interpretation

/-- The request in a space of the embedded query and from an element of it. -/
noncomputable def JoinRequest.embedded (around : Context) (request : JoinRequest) : JoinRequest :=
  { request with
    space := request.space.embedded around
    path := around.embeddedName request.path
    source := request.source.embedded around }

namespace Step

variable {schema : Schema} {around : Context}

/-! ## Entities -/

theorem attributeType_embeds (declared : Attribute) :
    Embeds schema around id (attributeType declared) (attributeType declared) := by
  refine embeds_read_bind ?_
  cases schema.resolve? declared.type with
  | none => exact embeds_throw _ _
  | some type => exact embeds_pure rfl

theorem newBinding_embeds {alias? : Option String} (hname : ∀ name ∈ alias?, PlainName name)
    (type : TypeDescriptor) :
    Embeds schema around (Binding.embedded around) (newBinding alias? type)
      (newBinding alias? type) := by
  cases alias? with
  | some aliasName =>
    refine embeds_bind embeds_drawUid fun uid => embeds_pure ?_
    rw [Binding.embedded, around.embeddedName_plain (hname aliasName rfl)]
  | none =>
    refine embeds_bind embeds_drawAlias fun aliasName => ?_
    exact embeds_bind embeds_drawUid fun uid => embeds_pure rfl

theorem attach_embeds (space : SpaceId) (element : FromElement) :
    Embeds schema around id (attach space element)
      (attach (space.embedded around) (element.embedded around)) :=
  embeds_bind (embeds_updateSpace space fun _ _ => OpenSpace.addJoin_rebuilt)
    fun _ => embeds_registerElement element

theorem makeRoot_embeds (space : SpaceId) (entity : EntityReference) {alias? : Option String}
    (hname : ∀ name ∈ alias?, PlainName name) :
    Embeds schema around (FromElement.embedded around) (makeRoot space entity alias?)
      (makeRoot (space.embedded around) entity alias?) := by
  refine embeds_bind (newBinding_embeds hname entity.type) fun binding => ?_
  refine embeds_bind (embeds_updateSpace space fun _ _ => OpenSpace.setRoot_rebuilt) fun _ => ?_
  exact embeds_bind (embeds_registerElement (.root binding)) fun _ => embeds_pure rfl

theorem ensureMapped_embeds (entity : EntityReference) (form : EntityJoinForm) :
    Embeds schema around id (ensureMapped entity form) (ensureMapped entity form) := by
  unfold ensureMapped
  split
  · exact embeds_throw _ _
  · exact embeds_pure rfl

/-- A join of an entity is made of its binding alone. -/
theorem entityElement_embeds (space : SpaceId) (entity : EntityReference) (form : EntityJoinForm)
    {alias? : Option String} (hname : ∀ name ∈ alias?, PlainName name)
    (make : Binding → FromElement)
    (hmake : ∀ binding, (make binding).embedded around = make (binding.embedded around)) :
    Embeds schema around (FromElement.embedded around)
      (do
        ensureMapped entity form
        let element := make (← newBinding alias? entity.type)
        attach space element
        return element)
      (do
        ensureMapped entity form
        let element := make (← newBinding alias? entity.type)
        attach (space.embedded around) element
        return element) := by
  refine embeds_bind (ensureMapped_embeds entity form) fun _ => ?_
  refine embeds_bind (newBinding_embeds hname entity.type) fun binding => ?_
  rw [← hmake binding]
  exact embeds_bind (attach_embeds space (make binding)) fun _ => embeds_pure rfl

theorem crossJoin_embeds (space : SpaceId) (entity : EntityReference) {alias? : Option String}
    (hname : ∀ name ∈ alias?, PlainName name) :
    Embeds schema around (FromElement.embedded around) (crossJoin space entity alias?)
      (crossJoin (space.embedded around) entity alias?) :=
  entityElement_embeds space entity .cross hname .crossJoin fun _ => rfl

theorem entityJoin_embeds (space : SpaceId) (entity : EntityReference) (joinType : JoinType)
    {alias? : Option String} (hname : ∀ name ∈ alias?, PlainName name) :
    Embeds schema around (FromElement.embedded around) (entityJoin space alias? entity joinType)
      (entityJoin (space.embedded around) alias? entity joinType) :=
  entityElement_embeds space entity .entity hname (fun binding => .entityJoin binding joinType)
    fun _ => rfl

/-! ## Joins through attributes -/

theorem joinableAttribute_embeds (request : JoinRequest) :
    Embeds schema around id (joinableAttribute request)
      (joinableAttribute (request.embedded around)) := by
  have hpolymorphic : (request.embedded around).source.isPolymorphic
      = request.source.isPolymorphic := FromElement.isPolymorphic_embedded
  have hfetched : (request.embedded around).fetched = request.fetched := rfl
  have himplicit : (request.embedded around).implicit = request.implicit := rfl
  have haliased : (request.embedded around).alias? = request.alias? := rfl
  have hdeclared : (request.embedded around).declared? = request.declared? := rfl
  unfold joinableAttribute
  dsimp only
  rw [hfetched, himplicit, haliased, hdeclared, hpolymorphic]
  split
  · exact embeds_throw_bind _ _ _
  split
  · exact embeds_throw_bind _ _ _
  cases request.declared? with
  | none => exact embeds_throw _ _
  | some declared =>
    dsimp only
    split
    · exact embeds_throw_bind _ _ _
    · exact embeds_pure rfl

/-- What is noted of a join is noted under the numbers that it gets in the larger statement. -/
theorem noteJoin_embedded (haround : around.Numbered) (request : JoinRequest) (declared : Attribute)
    (join : Nat) (context : Context) (advisories : List Report.Advisory) :
    noteJoin (request.embedded around) declared (around.nextUid + join)
        (context.embedded around advisories)
      = (noteJoin request declared join context).embedded around advisories := by
  have hsource : (request.embedded around).source.uid = around.nextUid + request.source.uid :=
    FromElement.uid_embedded
  unfold noteJoin
  rw [hsource]
  obtain ⟨_, _, _, narrowed?, _, _, source, _, implicit⟩ := request
  cases narrowed? with
  | none => cases implicit <;> rfl
  | some entity =>
    have hnarrow : (context.embedded around advisories).narrow (around.nextUid + join) entity
        = (context.narrow join entity).embedded around advisories :=
      Context.narrow_embedded haround context join entity
    cases implicit with
    | false => exact hnarrow
    | true =>
      exact congrArg (fun between => between.rememberJoin (around.nextUid + source.uid)
        declared.name (around.nextUid + join)) hnarrow

theorem newAttributeJoin_embeds (haround : around.Numbered) {request : JoinRequest}
    (hname : ∀ name ∈ request.alias?, PlainName name) (declared : Attribute) :
    Embeds schema around (FromElement.embedded around) (newAttributeJoin request declared)
      (newAttributeJoin (request.embedded around) declared) := by
  rw [newAttributeJoin_eq, newAttributeJoin_eq]
  refine embeds_bind (attributeType_embeds declared) fun type => ?_
  dsimp only [id]
  split
  · exact embeds_throw_bind _ _ _
  refine embeds_bind (newBinding_embeds hname _) fun binding => ?_
  refine embeds_bind (embeds_modify fun context => ⟨.of_same rfl rfl rfl rfl, fun advisories =>
    ⟨advisories, noteJoin_embedded haround request declared binding.uid context advisories⟩⟩)
    fun _ => ?_
  exact embeds_bind (attach_embeds request.space (requested request declared type binding))
    fun _ => embeds_pure rfl

/-- An implicit join is found again where the query has made it alone. -/
theorem attributeJoin_embeds (haround : around.Numbered) {request : JoinRequest}
    (hname : ∀ name ∈ request.alias?, PlainName name) :
    Embeds schema around (FromElement.embedded around) (attributeJoin request)
      (attributeJoin (request.embedded around)) := by
  refine embeds_bind (joinableAttribute_embeds request) fun declared => ?_
  have hnew : Embeds schema around (FromElement.embedded around) _ _ :=
    newAttributeJoin_embeds haround hname declared
  have himplicit : (request.embedded around).implicit = request.implicit := rfl
  have hsource : (request.embedded around).source.uid = around.nextUid + request.source.uid :=
    FromElement.uid_embedded
  rw [himplicit, hsource]
  split
  · refine embeds_get_bind fun context advisories hinside => ?_
    rw [id, Context.implicitJoin?_embedded haround]
    cases context.implicitJoin? request.source.uid declared.name with
    | none => exact hnew context hinside
    | some known => exact embedsAt_pure context rfl
  · exact hnew

end Step

/-! ## Paths -/

open Resolved (AttributeReference Expression IndexedReference PathSource)

/-- The name looks like no made-up variable and stands for nothing in the state. -/
structure Context.Ignores (around : Context) (name : String) : Prop where
  plain : PlainName name
  free : around.trail.element? name = none

variable {schema : Schema} {around : Context}

theorem Resolver.embedded_eq_bulk {resolver : Resolver} :
    resolver.embedded around = .bulk ↔ resolver = .bulk := by
  cases resolver with
  | joinRestriction space => exact ⟨nofun, nofun⟩
  | _ => exact Iff.rfl

theorem SpaceId.embedded_injective : Function.Injective (SpaceId.embedded around) := by
  rintro ⟨level, index⟩ ⟨level', index'⟩ h
  simp only [embedded, SpaceId.mk.injEq] at h
  rw [Nat.add_left_cancel h.1, h.2]

/-- Two spaces of the query are on one level, or the same, where they are so alone. -/
theorem foreign_embedded (found : Option SpaceId) (space : SpaceId) :
    ((found.map (SpaceId.embedded around)).any fun other =>
        other.level == (space.embedded around).level && other != space.embedded around)
      = found.any fun other => other.level == space.level && other != space := by
  cases found with
  | none => rfl
  | some other =>
    have hlevel : ((other.embedded around).level == (space.embedded around).level)
        = (other.level == space.level) := by
      rw [Bool.eq_iff_iff, beq_iff_eq, beq_iff_eq]
      exact Nat.add_left_cancel_iff
    have hsame : (other.embedded around != space.embedded around) = (other != space) := by
      rw [Bool.eq_iff_iff, bne_iff_ne, bne_iff_ne]
      exact SpaceId.embedded_injective.ne_iff
    rw [Option.map_some, Option.any_some, hlevel, hsame]
    rfl

/-- The place is for messages only. -/
theorem checkDereference_places {type : TypeDescriptor} {place : String} {last : Bool}
    (h : checkDereference type place last = .ok ()) (place' : String) :
    checkDereference type place' last = .ok () := by
  unfold checkDereference at h ⊢
  split at h
  · cases h
  rename_i hbasic
  split at h
  · cases h
  rename_i hcollection
  rw [if_neg hbasic, if_neg hcollection]

namespace Step

/-- A step that builds an expression, and the step that builds it within another query. -/
abbrev EmbedsExpression (schema : Schema) (around : Context) : Step Expression → Step Expression →
    Prop :=
  Embeds schema around (Expression.rebuilt false (FromElement.embedded around))

/-! ## Elements -/

theorem checkReach_embeds (haround : around.Numbered) (element : FromElement) :
    Embeds schema around id (checkReach element) (checkReach (element.embedded around)) := by
  refine embeds_get_bind fun context advisories hinside => ?_
  rw [Context.resolver_embedded hinside.resolvers, Context.spaceOf?_embedded haround]
  cases context.resolver with
  | joinRestriction space =>
    dsimp only [Resolver.embedded]
    rw [foreign_embedded]
    split
    · exact embeds_throw _ _ context hinside
    · exact embedsAt_pure context rfl
  | _ => exact embedsAt_pure context rfl

theorem joinBeside_embeds (haround : around.Numbered) (source : FromElement)
    (declared? : Option Attribute) (place : String) :
    Embeds schema around (FromElement.embedded around) (joinBeside source declared? place)
      (joinBeside (source.embedded around) declared? (around.embeddedName place)) := by
  refine embeds_get_bind fun context advisories hinside => ?_
  dsimp only
  rw [Context.resolver_embedded hinside.resolvers, Context.spaceOf?_embedded haround]
  by_cases hbulk : context.resolver = .bulk
  · rw [if_pos hbulk]
    exact embeds_throw_bind _ _ _ context hinside
  rw [if_neg hbulk, if_neg (mt Resolver.embedded_eq_bulk.mp hbulk)]
  cases context.spaceOf? source with
  | none => exact embeds_throw _ _ context hinside
  | some space => exact attributeJoin_embeds haround (fun _ h => by cases h) context hinside

theorem checkDereference_embeds (type : TypeDescriptor) (place place' : String) (last : Bool) :
    Embeds schema around id (ofExcept (checkDereference type place last))
      (ofExcept (checkDereference type place' last)) :=
  embeds_ofExcept fun _ h => checkDereference_places h place'

theorem implicitJoin_embeds (haround : around.Numbered) (source : FromElement)
    (name place : String) (last : Bool) :
    Embeds schema around (FromElement.embedded around) (implicitJoin source name place last)
      (implicitJoin (source.embedded around) name (around.embeddedName place) last) := by
  unfold implicitJoin
  rw [FromElement.type_embedded]
  dsimp only
  cases source.type.declared? name with
  | none => exact joinBeside_embeds haround source none place
  | some declared =>
    refine embeds_bind (attributeType_embeds declared) fun type => ?_
    refine embeds_bind (checkDereference_embeds type _ _ last) fun _ => ?_
    exact joinBeside_embeds haround source (some declared) place

/-- Induction on the attributes; the text of the path so far is embedded at its beginning. -/
theorem joinAlong_embeds (haround : around.Numbered) (source : FromElement) (place : String)
    (names : List String) :
    Embeds schema around (FromElement.embedded around) (joinAlong source place names)
      (joinAlong (source.embedded around) (around.embeddedName place) names) := by
  induction names generalizing source place with
  | nil => exact embeds_pure rfl
  | cons name names ih =>
    rw [joinAlong, joinAlong, ← around.embeddedName_point]
    exact embeds_bind (implicitJoin_embeds haround source name _ _) fun joined => ih joined _

theorem joinThrough_embeds (haround : around.Numbered) (source : FromElement)
    (names : List String) :
    Embeds schema around (FromElement.embedded around) (joinThrough source names)
      (joinThrough (source.embedded around) names) := by
  induction names generalizing source with
  | nil => exact embeds_pure rfl
  | cons name names ih =>
    rw [joinThrough, joinThrough, FromElement.aliasName_embedded, ← around.embeddedName_point]
    exact embeds_bind (implicitJoin_embeds haround source name _ _) fun joined => ih joined

theorem fromElementParts_embeds (haround : around.Numbered) {parts : List String}
    (hfirst : ∀ name ∈ parts.head?, around.Ignores name) (path : DottedName) :
    Embeds schema around (FromElement.embedded around) (fromElementParts parts path)
      (fromElementParts parts path) := by
  cases parts with
  | nil => exact embeds_throw _ _
  | cons first names =>
    obtain ⟨hplain, hfree⟩ := hfirst first rfl
    refine embeds_get_bind fun context advisories hinside => ?_
    have hfound : (context.embedded around advisories).trail.element? first
        = (context.trail.element? first).map (FromElement.embedded around) :=
      Trail.element?_embedded hplain hfree context.trail
    rw [hfound]
    cases context.trail.element? first with
    | none => exact embeds_throw _ _ context hinside
    | some element =>
      have halong : Embeds schema around (FromElement.embedded around) _ _ :=
        joinAlong_embeds haround element first names
      rw [around.embeddedName_plain hplain] at halong
      exact embeds_bind (checkReach_embeds haround element) (fun _ => halong) context hinside

theorem fromElementPath_embeds (haround : around.Numbered) {path : DottedName}
    (hfirst : ∀ name ∈ path.parts.head?, around.Ignores name) :
    Embeds schema around (FromElement.embedded around) (fromElementPath path)
      (fromElementPath path) :=
  fromElementParts_embeds haround hfirst path

theorem treatTarget_embeds (name : DottedName) :
    Embeds schema around id (treatTarget name) (treatTarget name) := by
  refine embeds_read_bind ?_
  cases schema.entity? name.text with
  | none => exact embeds_throw _ _
  | some entity => exact embeds_pure rfl

/-- An element that is narrowed keeps its variable. -/
theorem treat_embeds (haround : around.Numbered) (element : FromElement) (target : DottedName) :
    Embeds schema around (FromElement.embedded around) (treat element target)
      (treat (element.embedded around) target) := by
  refine embeds_bind (treatTarget_embeds target) fun entity => ?_
  have hnarrow : Embeds schema around (FromElement.embedded around)
      (do
        modify fun context => context.narrow element.uid entity
        let uid ← drawUid
        modify fun context => context.register
          (.treated ⟨uid, element.aliasName, element.binding.generated, entity.type⟩ element)
        return .treated ⟨uid, element.aliasName, element.binding.generated, entity.type⟩ element)
      (do
        modify fun context => context.narrow (element.embedded around).uid entity
        let uid ← drawUid
        modify fun context => context.register
          (.treated ⟨uid, (element.embedded around).aliasName,
            (element.embedded around).binding.generated, entity.type⟩ (element.embedded around))
        return .treated ⟨uid, (element.embedded around).aliasName,
          (element.embedded around).binding.generated, entity.type⟩
          (element.embedded around)) := by
    rw [FromElement.uid_embedded, FromElement.aliasName_embedded, FromElement.binding_embedded]
    refine embeds_bind (embeds_narrow haround _ _) fun _ => ?_
    refine embeds_bind embeds_drawUid fun uid => ?_
    refine embeds_bind (embeds_register (.treated
      ⟨uid, element.aliasName, element.binding.generated, entity.type⟩ element)) fun _ => ?_
    exact embeds_pure rfl
  dsimp only [id]
  rw [FromElement.type_embedded]
  split
  · split
    · exact embeds_throw_bind _ _ _
    · exact hnarrow
  · exact hnarrow

/-! ## Attributes -/

theorem attributeReference_embeds (source : PathSource) (type : TypeDescriptor) (name : String)
    (path : DottedName) :
    Embeds schema around (AttributeReference.rebuilt false (FromElement.embedded around))
      (attributeReference source type name path)
      (attributeReference (source.rebuilt false (FromElement.embedded around)) type name path) := by
  unfold attributeReference
  cases type.declared? name with
  | none => exact embeds_throw _ _
  | some declared =>
    exact embeds_bind (attributeType_embeds declared) fun found => embeds_pure rfl

/-- The source that attributes lead to within another query, under one type. -/
noncomputable def reachedEmbedded (around : Context) (reached : PathSource × TypeDescriptor) :
    PathSource × TypeDescriptor :=
  (reached.1.rebuilt false (FromElement.embedded around), reached.2)

theorem composites_embeds (path : DottedName) (source : PathSource) (type : TypeDescriptor)
    (place place' : String) (names : List String) :
    Embeds schema around (reachedEmbedded around) (composites path source type place names)
      (composites path (source.rebuilt false (FromElement.embedded around)) type place'
        names) := by
  induction names generalizing source type place place' with
  | nil => exact embeds_pure rfl
  | cons name names ih =>
    refine embeds_bind (attributeReference_embeds source type name path) fun attained => ?_
    rw [AttributeReference.type_rebuilt]
    refine embeds_bind (checkDereference_embeds attained.type _ _ false) fun _ => ?_
    split
    · exact ih (.reference attained) _ _ _
    · exact embeds_throw _ _

theorem attributes_embeds (path : DottedName) (source : PathSource) (type : TypeDescriptor)
    (names : List String) :
    Embeds schema around (reachedEmbedded around) (attributes path source type names)
      (attributes path (source.rebuilt false (FromElement.embedded around)) type names) := by
  induction names generalizing source type with
  | nil => exact embeds_pure rfl
  | cons name names ih =>
    refine embeds_bind (attributeReference_embeds source type name path) fun attained => ?_
    rw [AttributeReference.type_rebuilt]
    exact embeds_bind (checkDereference_embeds attained.type _ _ false)
      fun _ => ih (.reference attained) _

/-! ## Expressions -/

/-- The last attribute of a path. -/
theorem lastReference_embeds (source : PathSource) (type : TypeDescriptor) (name : String)
    (path : DottedName) :
    EmbedsExpression schema around
      (do return .reference (← attributeReference source type name path))
      (do
        return .reference (← attributeReference
          (source.rebuilt false (FromElement.embedded around)) type name path)) :=
  embeds_bind (attributeReference_embeds source type name path)
    fun attained => embeds_pure (Expression.rebuilt_reference attained).symm

theorem navigate_embeds (haround : around.Numbered) (element : FromElement) (names : List String)
    (path : DottedName) :
    EmbedsExpression schema around (navigate element names path)
      (navigate (element.embedded around) names path) := by
  refine embeds_bind (checkReach_embeds haround element) fun _ => ?_
  cases names.getLast? with
  | none => exact embeds_pure (Expression.rebuilt_element element).symm
  | some last =>
    refine embeds_get_bind fun context advisories hinside => ?_
    dsimp only
    rw [Context.resolver_embedded hinside.resolvers, FromElement.type_embedded]
    by_cases hbulk : context.resolver = .bulk
    · rw [if_pos hbulk, if_pos (Resolver.embedded_eq_bulk.mpr hbulk)]
      refine embeds_bind (composites_embeds path (.element element) element.type
        element.aliasName (element.embedded around).aliasName names.dropLast) (fun reached => ?_)
        context hinside
      exact lastReference_embeds reached.1 reached.2 last path
    · rw [if_neg hbulk, if_neg (mt Resolver.embedded_eq_bulk.mp hbulk)]
      refine embeds_bind (joinThrough_embeds haround element names.dropLast) (fun source => ?_)
        context hinside
      rw [FromElement.type_embedded]
      exact lastReference_embeds (.element source) source.type last path

theorem navigateIndexed_embeds (indexed : IndexedReference) (path : DottedName) :
    EmbedsExpression schema around (navigateIndexed indexed path)
      (navigateIndexed (indexed.rebuilt false (FromElement.embedded around)) path) := by
  unfold navigateIndexed
  rw [IndexedReference.type_rebuilt]
  cases path.parts.getLast? with
  | none => exact embeds_pure (Expression.rebuilt_indexed indexed).symm
  | some last =>
    refine embeds_bind (attributes_embeds path (.indexed indexed) indexed.type
      path.parts.dropLast) fun reached => ?_
    exact lastReference_embeds reached.1 reached.2 last path

/-- The readings of a path are tried in the same order, and the one that succeeds alone does so. -/
theorem path_embeds (haround : around.Numbered) {dotted : DottedName}
    (hfirst : ∀ name ∈ dotted.parts.head?, around.Ignores name) :
    EmbedsExpression schema around (path dotted) (path dotted) := by
  unfold path
  cases hparts : dotted.parts with
  | nil => exact embeds_throw _ _
  | cons first names =>
    obtain ⟨hplain, hfree⟩ := hfirst first (by rw [hparts]; rfl)
    refine embeds_get_bind fun context advisories hinside => ?_
    refine embeds_read_bind ?_ context hinside
    have hfound : (context.embedded around advisories).trail.element? first
        = (context.trail.element? first).map (FromElement.embedded around) :=
      Trail.element?_embedded hplain hfree context.trail
    rw [hfound]
    cases context.trail.element? first with
    | some element => exact navigate_embeds haround element names dotted
    | none =>
      dsimp only [Option.map_none]
      cases schema.entity? dotted.text with
      | some entity => exact embeds_pure (Expression.rebuilt_entityType entity).symm
      | none =>
        cases hconstant : constant? schema dotted with
        | some constant =>
          obtain ⟨owner, member, type, rfl⟩ := constant?_form hconstant
          exact embeds_pure (Expression.rebuilt_constant owner member type).symm
        | none =>
          cases howner : bareOwner first context.trail.frames with
          | error fault => exact embeds_throw_bind _ _ _
          | ok found =>
            cases found with
            | none => exact embeds_throw _ _
            | some element =>
              have hembedded : bareOwner first (context.embedded around advisories).trail.frames
                  = .ok (some (element.embedded around)) :=
                bareOwner_embedded hinside.trail howner
              rw [hembedded]
              exact navigate_embeds haround element (first :: names) dotted

theorem indexed_embeds (haround : around.Numbered) {base : DottedName}
    (hfirst : ∀ name ∈ base.parts.head?, around.Ignores name) (index : Expression)
    (remainder : Option DottedName) :
    EmbedsExpression schema around (indexed base index remainder)
      (indexed base (index.rebuilt false (FromElement.embedded around)) remainder) := by
  refine embeds_bind (path_embeds haround hfirst) fun value => ?_
  cases value with
  | reference collection =>
    rw [Expression.rebuilt_reference]
    dsimp only
    rw [AttributeReference.type_rebuilt]
    split
    · rename_i position type hposition htype
      cases remainder with
      | none =>
        exact embeds_pure (Expression.rebuilt_indexed (.mk collection index type)).symm
      | some rest =>
        exact embeds_under .indexedElement (navigateIndexed_embeds (.mk collection index type) rest)
    · exact embeds_throw _ _
  | _ => exact embeds_throw _ _

theorem treated_embeds (haround : around.Numbered) {base : DottedName}
    (hfirst : ∀ name ∈ base.parts.head?, around.Ignores name) (target : DottedName)
    (remainder : Option DottedName) :
    EmbedsExpression schema around (treated base target remainder)
      (treated base target remainder) := by
  refine embeds_bind (fromElementPath_embeds haround hfirst) fun element => ?_
  refine embeds_bind (treat_embeds haround element target) fun narrowed => ?_
  cases remainder with
  | none => exact embeds_pure (Expression.rebuilt_element narrowed).symm
  | some rest => exact navigate_embeds haround narrowed rest.parts _

end Step
end EntityQuery.Interpretation

import EntityQuery.Interpretation.Context

/-!
# Making from elements

An element is made in three moves: it gets a variable and a number, it is put into an open space,
and it is registered under its number and its variable. Unmapped polymorphic names are roots only.

* `Step.makeRoot`, `Step.crossJoin`, `Step.entityJoin`, `Step.attributeJoin`.
-/

namespace EntityQuery.Interpretation

/-- A join through an attribute that is asked for. -/
structure JoinRequest where
  space : SpaceId
  alias? : Option String
  /-- The attribute, if the type of the source declares it. -/
  declared? : Option Attribute
  /-- The entity that the joined values are narrowed to. -/
  narrowed? : Option EntityReference
  path : String
  joinType : JoinType
  source : FromElement
  fetched : Bool
  /-- The join is the one implicit join over the attribute and is made at most once. -/
  implicit : Bool

/-- The type of the values that a join ranges over: what it is narrowed to, else the elements of a
collection, else the attribute itself. -/
def joinedType (narrowed? : Option EntityReference) (type : TypeDescriptor) : TypeDescriptor :=
  match narrowed? with
  | some entity => entity.type
  | none => type.element?.getD type

namespace Step

/-- The type that a declared attribute resolves to. -/
def attributeType (declared : Attribute) : Step TypeDescriptor := do
  match (← read).resolve? declared.type with
  | some type => return type
  | none => throw (.unresolvedAttributeType declared.name)

/-- A new binding: the variable comes before the number. -/
def newBinding (alias? : Option String) (type : TypeDescriptor) : Step Binding := do
  match alias? with
  | some aliasName => return ⟨← drawUid, aliasName, false, type⟩
  | none =>
    let aliasName ← drawAlias
    return ⟨← drawUid, aliasName, true, type⟩

/-- Puts a join into a space and registers it. -/
def attach (space : SpaceId) (element : FromElement) : Step Unit := do
  updateSpace space fun open? => open?.addJoin element
  registerElement element

/-- Makes the root of a space that has none. -/
def makeRoot (space : SpaceId) (entity : EntityReference) (alias? : Option String) :
    Step FromElement := do
  let element := FromElement.root (← newBinding alias? entity.type)
  updateSpace space fun open? => open?.setRoot element
  registerElement element
  return element

/-- Fails for an unmapped polymorphic name. -/
def ensureMapped (entity : EntityReference) (form : EntityJoinForm) : Step Unit := do
  if entity.isPolymorphic then throw (.polymorphicJoin entity.name form)

def crossJoin (space : SpaceId) (entity : EntityReference) (alias? : Option String) :
    Step FromElement := do
  ensureMapped entity .cross
  let element := FromElement.crossJoin (← newBinding alias? entity.type)
  attach space element
  return element

def entityJoin (space : SpaceId) (alias? : Option String) (entity : EntityReference)
    (joinType : JoinType) : Step FromElement := do
  ensureMapped entity .entity
  let element := FromElement.entityJoin (← newBinding alias? entity.type) joinType
  attach space element
  return element

/-- The attribute of a request that may be joined. -/
def joinableAttribute (request : JoinRequest) : Step Attribute := do
  if request.fetched && request.implicit then throw (.implicitJoinFetched request.path)
  if request.alias?.isSome && request.implicit then throw (.implicitJoinAliased request.path)
  match request.declared? with
  | none => throw (.unknownJoinAttribute request.path request.source)
  | some declared =>
    if request.source.isPolymorphic then
      throw (.joinFromPolymorphic declared.name request.source)
    return declared

/-- Makes a join through an attribute that is not basic. -/
def newAttributeJoin (request : JoinRequest) (declared : Attribute) : Step FromElement := do
  let type ← attributeType declared
  if type.isBasic then throw (.basicJoin request.path)
  let binding ← newBinding request.alias? (joinedType request.narrowed? type)
  let element := FromElement.attributeJoin binding request.source
    { declared, type, joinType := request.joinType, fetched := request.fetched,
      implicit := request.implicit, path := request.path }
  if let some entity := request.narrowed? then
    modify fun context => context.narrow binding.uid entity
  if request.implicit then
    modify fun context => context.rememberJoin request.source.uid declared.name binding.uid
  attach request.space element
  return element

/-- The join that a request asks for; an implicit join that was made before is used again. -/
def attributeJoin (request : JoinRequest) : Step FromElement := do
  let declared ← joinableAttribute request
  if request.implicit then
    match (← get).implicitJoin? request.source.uid declared.name with
    | some known => return known
    | none => newAttributeJoin request declared
  else newAttributeJoin request declared

end Step
end EntityQuery.Interpretation

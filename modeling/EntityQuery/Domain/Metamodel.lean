import EntityQuery.Domain.Configuration
import EntityQuery.Domain.Schema

/-!
# Metamodels

A metamodel is a description of a domain in which every name is known. It is made from a
configuration and may grow at run time; a step that would leave a name unknown is refused.

* `Metamodel.ofConfiguration`: accepts a configuration or names its first fault.
* `Metamodel.registerEntity`: adds an entity whose types are known already.
* `Metamodel.schema`: the answers of the metamodel to the questions of a query.
-/

namespace EntityQuery

/-- Why a description of a domain is refused. -/
inductive MetamodelFault where
  | unknownType (owner name : String)
  | duplicateName (name : String)
  | missingMapKey (owner : String)
  deriving DecidableEq, Repr

namespace MetamodelFault

def text : MetamodelFault → String
  | unknownType owner name => s!"Unknown type '{name}' referenced by '{owner}'"
  | duplicateName name => s!"Duplicate type name: {name}"
  | missingMapKey owner => s!"Map attribute of '{owner}' declares no key type"

end MetamodelFault

/-- A domain; every table holds one entry per name, in the order of registration. -/
structure Metamodel where
  entities : List Entity := []
  composites : List Composite := []
  polymorphic : List Polymorphic := []
  classes : List HostClass := []
  strict : Bool := false
  deriving DecidableEq, Repr

namespace Metamodel

def empty : Metamodel := {}

def findEntity? (model : Metamodel) (name : String) : Option Entity :=
  Keyed.find? Entity.name name model.entities

def findComposite? (model : Metamodel) (name : String) : Option Composite :=
  Keyed.find? Composite.name name model.composites

def findPolymorphic? (model : Metamodel) (name : String) : Option Polymorphic :=
  Keyed.find? Polymorphic.name name model.polymorphic

/-! ## Types -/

/-- Checks that a type of `owner` names known types only, and a key type for every map. -/
def check (model : Metamodel) (owner : String) : ValueType → Except MetamodelFault Unit
  | .basic _ => .ok ()
  | .entity name =>
    if (model.findEntity? name).isSome then .ok () else .error (.unknownType owner name)
  | .composite name =>
    if (model.findComposite? name).isSome then .ok () else .error (.unknownType owner name)
  | .collection kind element =>
    if kind = .map then .error (.missingMapKey owner) else model.check owner element
  | .indexed _ index element => do
    model.check owner index
    model.check owner element

/-- The descriptor of a declared type. A list that declares no index type has integer positions. -/
def resolve? (model : Metamodel) : ValueType → Option TypeDescriptor
  | .basic basic => some (.basic basic)
  | .entity name => (model.findEntity? name).map TypeDescriptor.entity
  | .composite name => (model.findComposite? name).map TypeDescriptor.composite
  | .collection kind element => do
    let element ← model.resolve? element
    if kind = .list then some (.indexed kind (.basic .integer) element)
    else some (.collection kind element)
  | .indexed kind index element => do
    let index ← model.resolve? index
    let element ← model.resolve? element
    some (.indexed kind index element)

/-! ## Construction -/

/-- Adds an entity of a new name. -/
def declareEntity (model : Metamodel) (entity : Entity) : Except MetamodelFault Metamodel :=
  if (model.findEntity? entity.name).isSome then .error (.duplicateName entity.name)
  else .ok { model with entities := model.entities ++ [entity] }

/-- Adds a composite of a new name. -/
def declareComposite (model : Metamodel) (composite : Composite) :
    Except MetamodelFault Metamodel :=
  if (model.findComposite? composite.name).isSome then .error (.duplicateName composite.name)
  else .ok { model with composites := model.composites ++ [composite] }

/-- The entities that implement a polymorphic name. -/
def implementors (model : Metamodel) (owner : String) (names : List String) :
    Except MetamodelFault (List Entity) :=
  names.mapM fun name =>
    match model.findEntity? name with
    | some entity => .ok entity
    | none => .error (.unknownType owner name)

/-- Adds a polymorphic name that names no entity and no other polymorphic type. -/
def declarePolymorphic (model : Metamodel) (declaration : PolymorphicDeclaration) :
    Except MetamodelFault Metamodel :=
  if (model.findEntity? declaration.name).isSome
      || (model.findPolymorphic? declaration.name).isSome then
    .error (.duplicateName declaration.name)
  else do
    let implementors ← model.implementors declaration.name declaration.implementors
    .ok { model with polymorphic := model.polymorphic ++ [⟨declaration.name, implementors⟩] }

/-- Adds a class, in place of an earlier class of that name. -/
def registerClass (model : Metamodel) (hostClass : HostClass) : Metamodel :=
  { model with classes := Keyed.insert HostClass.name hostClass model.classes }

/-- Checks the types of all attributes. -/
def checkAttributes (model : Metamodel) (owner : String) (attributes : List Attribute) :
    Except MetamodelFault Unit :=
  attributes.forM fun declared => model.check owner declared.type

/-- Checks the attributes of all entities, then those of all composites. -/
def checkAll (model : Metamodel) : Except MetamodelFault Unit := do
  model.entities.forM fun entity => model.checkAttributes entity.name entity.attributes
  model.composites.forM fun composite =>
    model.checkAttributes composite.name composite.attributes

/-- The metamodel that a configuration describes. -/
def ofConfiguration (configuration : Configuration) : Except MetamodelFault Metamodel := do
  let model ← configuration.entities.foldlM declareEntity
    { empty with strict := configuration.strict }
  let model ← configuration.composites.foldlM declareComposite model
  let model ← configuration.polymorphic.foldlM declarePolymorphic model
  let model := configuration.classes.foldl registerClass model
  model.checkAll
  return model

/-! ## Growth at run time -/

/-- The attributes whose types have to be known before an entity is registered: all but direct
references to the entity itself. -/
def foreignAttributes (entity : Entity) : List Attribute :=
  entity.attributes.filter fun declared => declared.type != .entity entity.name

/-- Adds an entity of a new name whose types are known. -/
def registerEntity (model : Metamodel) (entity : Entity) : Except MetamodelFault Metamodel :=
  if (model.findEntity? entity.name).isSome || (model.findPolymorphic? entity.name).isSome then
    .error (.duplicateName entity.name)
  else do
    model.checkAttributes entity.name (foreignAttributes entity)
    return { model with entities := model.entities ++ [entity] }

def setStrict (model : Metamodel) (strict : Bool) : Metamodel := { model with strict := strict }

/-! ## Questions -/

def entityNames (model : Metamodel) : List String := model.entities.map Entity.name

/-- What an entity name refers to; a mapped entity comes before a polymorphic name. -/
def reference? (model : Metamodel) (name : String) : Option EntityReference :=
  match model.findEntity? name with
  | some entity => some (.mapped entity)
  | none => (model.findPolymorphic? name).map EntityReference.polymorphic

def class? (model : Metamodel) (name : String) : Option HostClass :=
  Keyed.find? HostClass.name name model.classes

/-- The answers of the metamodel. -/
def schema (model : Metamodel) : Schema :=
  ⟨model.reference?, model.class?, model.resolve?, model.strict⟩

end Metamodel
end EntityQuery

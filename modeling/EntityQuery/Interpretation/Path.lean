import EntityQuery.Interpretation.Joining

/-!
# What a path refers to

A path is read, in this order, as a variable followed by attributes, as the name of an entity, as a
constant of a host class, and as attributes of the one visible element that declares the first of
them. Going on from an attribute that is not basic makes an implicit join.

* `Step.path`, `Step.indexed`, `Step.treated`: paths as expressions.
* `Step.fromElementPath`: paths that have to end in a from element.
-/

namespace EntityQuery.Interpretation

open Resolved (Expression AttributeReference IndexedReference PathSource)

/-- Checks that a path may go on from an attribute; at the end of a path it may be a collection. -/
def checkDereference (type : TypeDescriptor) (place : String) (last : Bool) :
    Except Fault Unit :=
  if type.isBasic then .error (.basicDereferenced place)
  else if type.isCollection && !last then .error (.collectionDereferenced place)
  else .ok ()

/-- The constant that a path names: a member of a class. -/
def constant? (schema : Schema) (path : DottedName) : Option Expression := do
  let member ← path.parts.getLast?
  let owner := path.parts.dropLast
  if owner.isEmpty then none
  else
    let hostClass ← schema.class? (DottedName.mk owner).text
    let type ← hostClass.member? member
    some (.constant hostClass member type)

/-- The elements of a scope that a bare attribute may belong to. Implicit joins are left out. -/
def candidates (name : String) (frame : List FromElement) : List FromElement :=
  frame.filter fun element => !element.isImplicit && (element.type.declared? name).isSome

/-- The element that a bare attribute belongs to, the innermost scope first. -/
def bareOwner (name : String) : List (List FromElement) → Except Fault (Option FromElement)
  | [] => .ok none
  | frame :: outer =>
    match candidates name frame with
    | [] => bareOwner name outer
    | [element] => .ok (some element)
    | several => .error (.ambiguousAttribute name (several.map FromElement.aliasName))

namespace Step

/-- The value of a check that needs no state. -/
def ofExcept {α : Type} : Except Fault α → Step α
  | .ok value => return value
  | .error fault => throw fault

/-- In the restriction of a join, fails for an element of another space of that query. -/
def checkReach (element : FromElement) : Step Unit := do
  let context ← get
  match context.resolver with
  | .joinRestriction space =>
    if (context.spaceOf? element).any fun found => found.level == space.level && found != space then
      throw (.foreignSpace element)
  | _ => return

/-- The attribute of a name, taken from a source of the given type. -/
def attributeReference (source : PathSource) (type : TypeDescriptor) (name : String)
    (path : DottedName) : Step AttributeReference := do
  match type.declared? name with
  | none => throw (.unknownAttribute name type path)
  | some declared => return .mk source declared (← attributeType declared)

/-- An implicit join, put into the space that its source stands in. -/
def joinBeside (source : FromElement) (declared? : Option Attribute) (place : String) :
    Step FromElement := do
  let context ← get
  if context.resolver = .bulk then throw (.joinInBulk place)
  match context.spaceOf? source with
  | none => throw (.outsideClauses source)
  | some space =>
    attributeJoin
      { space, alias? := none, declared?, narrowed? := none, path := place, joinType := .inner,
        source, fetched := false, implicit := true }

/-- The implicit join over an attribute. -/
def implicitJoin (source : FromElement) (name place : String) (last : Bool) :
    Step FromElement := do
  let declared? := source.type.declared? name
  if let some declared := declared? then
    ofExcept (checkDereference (← attributeType declared) place last)
  joinBeside source declared? place

/-- Implicit joins along the attributes of a path that has to end in a from element; `place` is the
text of the path so far. -/
def joinAlong (source : FromElement) (place : String) : List String → Step FromElement
  | [] => return source
  | name :: names => do
    let place := place ++ "." ++ name
    let joined ← implicitJoin source name place names.isEmpty
    joinAlong joined place names

/-- The element that the first parts of a path lead to. -/
def fromElementParts (parts : List String) (path : DottedName) : Step FromElement := do
  match parts with
  | [] => throw (.uninterpretedPath path)
  | first :: names =>
    match (← get).trail.element? first with
    | none => throw (.unboundStart first path)
    | some element =>
      checkReach element
      joinAlong element first names

/-- The element that a path leads to. -/
def fromElementPath (path : DottedName) : Step FromElement := fromElementParts path.parts path

/-- The source at the end of attributes that are taken in place, without joins. In a bulk statement
only composites may be gone through. -/
def composites (path : DottedName) (source : PathSource) (type : TypeDescriptor) (place : String) :
    List String → Step (PathSource × TypeDescriptor)
  | [] => return (source, type)
  | name :: names => do
    let place := place ++ "." ++ name
    let reference ← attributeReference source type name path
    ofExcept (checkDereference reference.type place false)
    match reference.type with
    | .composite _ => composites path (.reference reference) reference.type place names
    | _ => throw (.joinInBulk place)

/-- The source at the end of attributes that are taken from an indexed element. -/
def attributes (path : DottedName) (source : PathSource) (type : TypeDescriptor) :
    List String → Step (PathSource × TypeDescriptor)
  | [] => return (source, type)
  | name :: names => do
    let reference ← attributeReference source type name path
    ofExcept (checkDereference reference.type s!"{name} in '{path.text}'" false)
    attributes path (.reference reference) reference.type names

/-- Implicit joins along attributes that a path goes on from. -/
def joinThrough (source : FromElement) : List String → Step FromElement
  | [] => return source
  | name :: names => do
    let joined ← implicitJoin source name (source.aliasName ++ "." ++ name) false
    joinThrough joined names

/-- What attributes of an element lead to: the element itself where there are none. -/
def navigate (element : FromElement) (names : List String) (path : DottedName) :
    Step Expression := do
  checkReach element
  match names.getLast? with
  | none => return .element element
  | some last =>
    if (← get).resolver = .bulk then
      let (source, type) ←
        composites path (.element element) element.type element.aliasName names.dropLast
      return .reference (← attributeReference source type last path)
    else
      let source ← joinThrough element names.dropLast
      return .reference (← attributeReference (.element source) source.type last path)

/-- What attributes of an indexed element lead to. -/
def navigateIndexed (indexed : IndexedReference) (path : DottedName) : Step Expression := do
  match path.parts.getLast? with
  | none => return .indexed indexed
  | some last =>
    let (source, type) ← attributes path (.indexed indexed) indexed.type path.parts.dropLast
    return .reference (← attributeReference source type last path)

/-- What a path refers to. -/
def path (path : DottedName) : Step Expression := do
  match path.parts with
  | [] => throw (.uninterpretedPath path)
  | first :: names =>
    let context ← get
    let schema ← read
    match context.trail.element? first with
    | some element => navigate element names path
    | none =>
      match schema.entity? path.text with
      | some entity => return .entityType entity
      | none =>
        match constant? schema path with
        | some constant => return constant
        | none =>
          match ← ofExcept (bareOwner first context.trail.frames) with
          | some element => navigate element path.parts path
          | none => throw (.uninterpretedPath path)

/-- An element of an indexed collection, with the attributes that are taken from it. -/
def indexed (base : DottedName) (index : Expression) (remainder : Option DottedName) :
    Step Expression := do
  match ← path base with
  | .reference collection =>
    match collection.type.index?, collection.type.element? with
    | some _, some type =>
      let indexed := IndexedReference.mk collection index type
      match remainder with
      | none => return .indexed indexed
      | some rest => under .indexedElement (navigateIndexed indexed rest)
    | _, _ => throw (.indexOfUnindexed base collection.type)
  | other => throw (.indexOfNonCollection base other.type?)

/-- The entity that something is narrowed to. -/
def treatTarget (name : DottedName) : Step EntityReference := do
  match (← read).entity? name.text with
  | some entity => return entity
  | none => throw (.unknownTreatTarget name)

/-- The element narrowed to an entity; it keeps its variable and gets a number of its own. A
polymorphic element is narrowed to one of its implementors. -/
def treat (element : FromElement) (target : DottedName) : Step FromElement := do
  let entity ← treatTarget target
  if let .polymorphic polymorphic := element.type then
    if !polymorphic.implementors.any fun implementor => implementor.name == entity.name then
      throw (.notImplementor entity.name polymorphic.name)
  modify fun context => context.narrow element.uid entity
  let uid ← drawUid
  let narrowed :=
    FromElement.treated ⟨uid, element.aliasName, element.binding.generated, entity.type⟩ element
  modify fun context => context.register narrowed
  return narrowed

/-- A path narrowed to an entity, with the attributes that are taken from it. -/
def treated (base target : DottedName) (remainder : Option DottedName) : Step Expression := do
  let element ← fromElementPath base
  let narrowed ← treat element target
  match remainder with
  | none => return .element narrowed
  | some rest =>
    navigate narrowed rest.parts ⟨s!"treat({base.text} as {target.text})" :: rest.parts⟩

end Step
end EntityQuery.Interpretation

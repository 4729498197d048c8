import EntityQuery.Interpretation.Path

/-!
# Clauses

The parts of a from clause, of an implicit selection and of an order that hold no expressions of
their own.
-/

namespace EntityQuery.Interpretation

namespace Step

/-- The entity that a name refers to. -/
def entity (name : DottedName) : Step EntityReference := do
  match (← read).entity? name.text with
  | some entity => return entity
  | none => throw (.unknownEntity name)

/-- Checks that a variable may be declared. -/
def checkVariable (alias? : Option String) : Step Unit := do
  match alias? with
  | some aliasName => comply (Catalogue.isReserved aliasName) (.reservedWordAsAlias aliasName)
  | none => return

/-- The root of a space. Unmapped polymorphic names are roots of the outermost query only. -/
def root (space : SpaceId) (written : Phrase.Root) : Step FromElement := do
  let entity ← entity written.entity
  if entity.isPolymorphic then
    comply true (.unmappedPolymorphism entity.name)
    if space.level > 0 then throw (.nestedPolymorphism entity.name)
  checkVariable written.alias?
  makeRoot space entity written.alias?

/-- A join through the last part of a path, from the element that the other parts lead to. -/
def explicitJoin (space : SpaceId) (path : DottedName) (alias? : Option String)
    (narrowed? : Option EntityReference) (joinType : JoinType) (fetched : Bool) :
    Step FromElement := do
  match path.parts.getLast? with
  | none => throw .emptyJoinPath
  | some name =>
    if path.parts.dropLast.isEmpty then throw (.joinPathWithoutVariable path)
    let source ← fromElementParts path.parts.dropLast path
    attributeJoin
      { space, alias?, declared? := source.type.declared? name, narrowed?, path := path.text,
        joinType, source, fetched, implicit := false }

/-- A single name that is no bound variable joins an entity; any other path joins an attribute. -/
def joinsEntity (trail : Trail) (path : DottedName) : Bool :=
  path.isSimple && (trail.element? path.first).isNone

/-- The element that a join target leads to. -/
def joinTarget (space : SpaceId) (target : Phrase.JoinTarget) (alias? : Option String)
    (joinType : JoinType) (fetched : Bool) : Step FromElement := do
  match target with
  | .plain path =>
    if joinsEntity (← get).trail path then
      entityJoin space alias? (← entity path) joinType
    else explicitJoin space path alias? none joinType fetched
  | .treated path name =>
    let narrowed ← treatTarget name
    explicitJoin space path alias? (some narrowed) joinType fetched

/-- Checks that the last part of a path is no attribute of a single value. -/
def checkMember (path : DottedName) : Step Unit := do
  match path.parts.getLast? with
  | none => return
  | some name =>
    if !path.parts.dropLast.isEmpty then
      let source ← fromElementParts path.parts.dropLast path
      if (source.type.declared? name).any fun declared => !declared.isPlural then
        throw (.memberJoinOfNonCollection path)

/-- An inner join over a collection that is written as a member. -/
def memberJoin (space : SpaceId) (path : DottedName) (alias? : Option String) : Step Unit := do
  checkVariable alias?
  checkMember path
  let _ ← explicitJoin space path alias? none .inner false

/-- The selection of a query without a select clause: the root of its first space. -/
def implicitSelection : Step (List Resolved.Selection) := do
  match (← get).levels.firstRoot? with
  | none => throw .implicitSelectWithoutRoot
  | some root =>
    modify fun context => context.advise .implicitSelect
      s!"Use of HQL implicit select clause; select {root.aliasName} explicitly"
    comply true .implicitSelect
    let selection := Resolved.Selection.mk (.element root) none
    bindSelection 0 selection
    return [selection]

/-- The result variable that an item of an order names. -/
def resultVariable? (trail : Trail) : Phrase.Expression → Option Resolved.Expression
  | .path path =>
    if path.isSimple then
      (trail.selection? path.first).map fun result =>
        .selection path.first result.position result.expression.type?
    else none
  | _ => none

/-- The order that a word of an item stands for; ascending where there is none. -/
def sortOrder (ordering : Option String) : Except Fault SortOrder :=
  match ordering with
  | none => .ok .ascending
  | some word =>
    match SortOrder.ofText? word with
    | some order => .ok order
    | none => .error (.unrecognizedOrder word)

end Step
end EntityQuery.Interpretation

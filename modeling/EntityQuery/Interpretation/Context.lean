import EntityQuery.Domain.Schema
import EntityQuery.Interpretation.OpenSpace
import EntityQuery.Interpretation.Trail
import EntityQuery.Report.Advisory
import EntityQuery.Resolved.Narrowing

/-!
# The state of an interpretation

Interpreting a query draws numbers and made-up variables for elements, opens scopes and from
clauses, remembers implicit joins so that each is made once, and collects marks and advisories.

* `Context`: that state, with one function for each change.
* `Step`: a computation that reads the schema, changes the state and may fail. What was changed
  before a failure stays changed.
-/

namespace EntityQuery.Interpretation

/-- What a path may refer to at the current place. -/
inductive Resolver where
  | standard
  /-- The restriction of a join: elements of the other spaces of that query are out of reach. -/
  | joinRestriction (space : SpaceId)
  /-- A bulk statement: paths make no joins. -/
  | bulk
  /-- What follows an indexed element: attributes are taken from that element. -/
  | indexedElement
  deriving DecidableEq, Repr

inductive ParameterStyle where
  | named
  | positional
  deriving DecidableEq, Repr

namespace ParameterStyle

def ofParameter : Phrase.Parameter → ParameterStyle
  | .named _ => named
  | .positional _ => positional

end ParameterStyle

/-- The implicit join over an attribute of a source. -/
structure KnownJoin where
  source : Nat
  declared : String
  join : Nat
  deriving DecidableEq, Repr

structure Context where
  nextUid : Nat := 0
  nextAlias : Nat := 0
  /-- The registered elements, newest first. -/
  registered : List FromElement := []
  /-- The implicit joins, newest first. -/
  implicitJoins : List KnownJoin := []
  narrowings : Narrowings := []
  trail : Trail := []
  /-- The resolvers above the standard one, innermost first. -/
  resolvers : List Resolver := []
  levels : Levels := []
  style? : Option ParameterStyle := none
  /-- The advisories in the order in which they came up. -/
  advisories : List Report.Advisory := []

namespace Context

def empty : Context := {}

/-- A made-up variable; no text is read as such a name. -/
def generatedAlias (number : Nat) : String := s!"<gen:{number}>"

def find? (context : Context) (uid : Nat) : Option FromElement :=
  context.registered.find? fun element => element.uid == uid

def register (context : Context) (element : FromElement) : Context :=
  { context with registered := element :: context.registered }

/-- The implicit join over an attribute. A join that was never registered is not found. -/
def implicitJoin? (context : Context) (source : Nat) (declared : String) : Option FromElement :=
  (context.implicitJoins.find? fun known =>
    known.source == source && known.declared == declared).bind fun known =>
      context.find? known.join

def rememberJoin (context : Context) (source : Nat) (declared : String) (join : Nat) : Context :=
  { context with implicitJoins := ⟨source, declared, join⟩ :: context.implicitJoins }

def narrow (context : Context) (uid : Nat) (target : EntityReference) : Context :=
  { context with narrowings := context.narrowings.add uid target }

/-- What paths may refer to now. -/
def resolver (context : Context) : Resolver := context.resolvers.headD .standard

/-- The number of resolvers, the lasting one included. -/
def resolverDepth (context : Context) : Nat := context.resolvers.length + 1

def pushResolver (context : Context) (resolver : Resolver) : Context :=
  { context with resolvers := resolver :: context.resolvers }

def popResolver (context : Context) : Context :=
  { context with resolvers := context.resolvers.tail }

def enterScope (context : Context) : Context := { context with trail := context.trail.enter }

def leaveScope (context : Context) : Context := { context with trail := context.trail.leave }

def openClause (context : Context) : Context := { context with levels := [] :: context.levels }

/-- Forgets the innermost from clause. -/
def dropClause (context : Context) : Context := { context with levels := context.levels.tail }

/-- The place of the space that holds an element or what it narrows. -/
def spaceOf? (context : Context) (element : FromElement) : Option SpaceId :=
  context.levels.spaceOf? element.unwrapped.uid

/-- Opens the level of a query: a scope, a from clause and the standard resolver. -/
def openLevel (context : Context) : Context :=
  ((context.enterScope).openClause).pushResolver .standard

/-- Leaves the level of a query. -/
def leaveLevel (context : Context) : Context := context.popResolver.leaveScope.dropClause

/-- Fixes the style of parameters with the first one. -/
def noteParameter (context : Context) (parameter : Phrase.Parameter) : Except Fault Context :=
  let style := ParameterStyle.ofParameter parameter
  if parameter = .positional 0 then .error .positionZero
  else if context.style?.any fun fixed => fixed != style then .error .mixedParameters
  else .ok { context with style? := some style }

def advise (context : Context) (code : Report.Code) (message : String) : Context :=
  { context with advisories := context.advisories ++ [⟨code, message⟩] }

end Context

/-- A step of an interpretation. -/
abbrev Step := ReaderT Schema (ExceptT Fault (StateM Context))

namespace Step

/-- The outcome of a step with the state that it leaves. -/
def run' {α : Type} (step : Step α) (schema : Schema) (context : Context) :
    Except Fault α × Context :=
  step.run schema context

/-- A change of the state that may fail and then leaves the state as it was. -/
def change (f : Context → Except Fault Context) : Step Unit := do
  match f (← get) with
  | .ok context => set context
  | .error fault => throw fault

/-- The outcome of a step as a value. -/
def attempt {α : Type} (step : Step α) : Step (Except Fault α) :=
  fun schema context =>
    match step schema context with
    | (outcome, context) => (.ok outcome, context)

/-- A fresh number for an element. -/
def drawUid : Step Nat :=
  modifyGet fun context => (context.nextUid, { context with nextUid := context.nextUid + 1 })

/-- A fresh made-up variable. -/
def drawAlias : Step String :=
  modifyGet fun context =>
    (Context.generatedAlias context.nextAlias, { context with nextAlias := context.nextAlias + 1 })

/-- Fails where the strict language is in force and something in it is violated. -/
def comply (violated : Bool) (breach : Breach) : Step Unit := do
  if violated && (← read).strict then throw (.strict breach)

/-- A step under a resolver, which is taken back however the step ends. -/
def under {α : Type} (resolver : Resolver) (step : Step α) : Step α := do
  modify fun context => context.pushResolver resolver
  let outcome ← attempt step
  modify Context.popResolver
  match outcome with
  | .ok value => return value
  | .error fault => throw fault

/-- A step on a level of its own, with the finished spaces of that level. The level is left however
the step ends. -/
def onLevel {α : Type} (step : Step α) : Step (α × List Resolved.Space) := do
  modify Context.openLevel
  let outcome ← attempt step
  let spaces := (← get).levels.headD []
  modify Context.leaveLevel
  match outcome with
  | .error fault => throw fault
  | .ok value =>
    match Levels.close spaces with
    | .error fault => throw fault
    | .ok spaces => return (value, spaces)

/-- Opens a space in the innermost from clause. -/
def openSpace : Step SpaceId := do
  let context ← get
  match context.levels.openSpace with
  | .error fault => throw fault
  | .ok (id, levels) =>
    set { context with levels := levels }
    return id

/-- Changes an open space. -/
def updateSpace (id : SpaceId) (f : OpenSpace → Except Fault OpenSpace) : Step Unit :=
  change fun context =>
    (context.levels.update f id).map fun levels => { context with levels := levels }

/-- Registers an element and binds its alias. -/
def registerElement (element : FromElement) : Step Unit := do
  modify fun context => context.register element
  change fun context =>
    (context.trail.bind element).map fun trail => { context with trail := trail }

def bindSelection (position : Nat) (selection : Resolved.Selection) : Step Unit :=
  change fun context =>
    (context.trail.bindSelection position selection).map fun trail =>
      { context with trail := trail }

end Step
end EntityQuery.Interpretation

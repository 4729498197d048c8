import EntityQuery.Interpretation.Path

/-!
# Calls, map entries and parameters

The parts of an expression that are decided by a name: functions on collections, standard and
other functions, the parts of a map, instantiations and parameters.
-/

namespace EntityQuery.Interpretation

open Resolved (Expression)

namespace Step

def parameter (parameter : Phrase.Parameter) : Step Expression := do
  change fun context => context.noteParameter parameter
  return .parameter parameter

def literal (literal : Phrase.Literal) : Step Expression :=
  match Resolved.Literal.ofPhrase literal with
  | .ok value => return .literal value
  | .error fault => throw (.literal fault)

/-! ## Paths that are calls -/

/-- A single name that is a function without parentheses, unless it is a bound variable. -/
def niladicName? (trail : Trail) (path : DottedName) : Option String :=
  if path.isSimple && Catalogue.isNiladicFunction path.first
      && (trail.element? path.first).isNone then some path.first
  else none

/-- What a path refers to, functions without parentheses included. -/
def pathOrCall (dotted : DottedName) : Step Expression := do
  match niladicName? (← get).trail dotted with
  | some name =>
    return .call (Text.lowered name) false false true [] (Catalogue.resultType? name [])
  | none => path dotted

/-- The map that a join ranges over. -/
def mapOf? (join : FromElement) : Option TypeDescriptor :=
  join.collection?.filter fun type => type.kind? == some .map

/-- The key, the value or the entry of a join over a map. The value of a join that is over no map
is the joined element, outside the strict language. -/
def mapEntry (function : MapFunction) (argument : DottedName) : Step Expression := do
  let join ← fromElementPath argument
  match function, mapOf? join with
  | .value, some map => return .mapEntry .value join map.element?
  | .value, none =>
    comply true (.valueOfNonMap join)
    return .element join
  | .key, some map => return .mapEntry .key join map.index?
  | .entry, some _ => return .mapEntry .entry join none
  | function, none => throw (.mapJoinArgument function join)

/-! ## Functions on collections -/

/-- Announces a function that the strict language lacks. -/
def announceCollectionFunction (function : CollectionFunction) : Step Unit := do
  if function.isExtension then
    comply true (.collectionFunction function)
    modify fun context => context.advise .collectionFunction
      s!"HQL collection function {function.text}() is deprecated"

/-- The type of a function of a collection, other than the index of a join. -/
def collectionFunctionType (function : CollectionFunction) (collection : TypeDescriptor) :
    Except Fault (Option TypeDescriptor) :=
  match function with
  | .size | .index => .ok (some (.basic .integer))
  | .elements | .maxElement | .minElement => .ok collection.element?
  | .indices | .maxIndex | .minIndex =>
    match collection.index? with
    | some index => .ok (some index)
    | none => .error (.indexedArgument function collection)

/-- A function of a collection, applied to its argument. -/
def collectionFunction (function : CollectionFunction) (argument : Expression) :
    Step Expression := do
  match argument with
  | .reference collection =>
    if collection.isPlural then
      let type? ← ofExcept (collectionFunctionType function collection.type)
      return .collectionFunction function argument type?
    else throw (.pluralArgument function)
  | _ => throw (.pluralArgument function)

/-- The index of a join over an indexed collection; the argument has to be a path. -/
def indexOfJoin (argument : Phrase.Expression) : Step Expression := do
  match argument with
  | .path dotted =>
    let join ← fromElementPath dotted
    match join.collection?.bind TypeDescriptor.index? with
    | some index => return .collectionFunction .index (.element join) (some index)
    | none => throw (.indexedJoinArgument join)
  | _ => throw .variableArgument

/-! ## Other functions -/

/-- Announces a function whose meaning is left open. Calls that say so are part of the strict
language. -/
def announceCall (name : String) (generic standard : Bool) : Step Unit := do
  if !standard then
    comply (!generic) (.functionCall name)
    modify fun context => context.advise .nonStandardFunction
      s!"Function '{name}' is passed through unresolved"

/-- A call with its arguments; only standard functions have a type. -/
def call (name : String) (distinct star standard : Bool) (arguments : List Expression) :
    Expression :=
  let type? :=
    if standard then Catalogue.resultType? name (arguments.map Expression.type?) else none
  .call name distinct star standard arguments type?

/-! ## Operators -/

/-- An arithmetic operation with its type. -/
def arithmetic (operator : ArithmeticOperator) (left right : Expression) : Expression :=
  .arithmetic operator left right (Catalogue.arithmeticType? left.type? right.type?)

/-- The collection that a predicate on collections is about. -/
def pluralOperand (form : PluralForm) (operand : Expression) :
    Step Resolved.AttributeReference := do
  match operand with
  | .reference collection =>
    if collection.isPlural then return collection
    else throw (.pluralOperand form operand.type?)
  | _ => throw (.pluralOperand form operand.type?)

/-! ## Instantiations -/

/-- The position, from one, of the first argument without an alias. -/
def firstUnnamed? (arguments : List Phrase.SelectItem) : Option Nat :=
  (arguments.findIdx? fun
    | .mk _ alias? => alias?.isNone).map (· + 1)

/-- Only the aliases of the arguments matter. -/
theorem firstUnnamed?_eq (arguments : List Phrase.SelectItem) :
    firstUnnamed? arguments
      = ((arguments.map Phrase.SelectItem.alias?).findIdx? Option.isNone).map (· + 1) := by
  rw [List.findIdx?_map, firstUnnamed?]
  congr 2
  funext item
  cases item
  rfl

/-- What an instantiation makes. Arguments of a map need an alias as their key. -/
def instantiationTarget (target : Phrase.Target) (arguments : List Phrase.SelectItem) :
    Step Resolved.Target := do
  match target with
  | .list => return .list
  | .map =>
    match firstUnnamed? arguments with
    | some position => throw (.mapArgumentWithoutAlias position)
    | none => return .map
  | .hostClass name =>
    match (← read).class? name.text with
    | some hostClass => return .hostClass hostClass
    | none => throw (.unresolvableClass name)

/-- The element that a variable stands for. -/
def identificationVariable (name : String) : Step FromElement := do
  match (← get).trail.element? name with
  | some element => return element
  | none => throw (.unboundVariable name)

end Step
end EntityQuery.Interpretation

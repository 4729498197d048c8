import EntityQuery.Domain.HostClass
import EntityQuery.Interpretation.Breach
import EntityQuery.Resolved.Value

/-!
# Why a query has no meaning

Every way in which the interpretation of a query can fail, with what the failure is about. The
codes and texts of the report are given at the end.
-/

namespace EntityQuery.Interpretation

/-- What takes only mapped entities. -/
inductive EntityJoinForm where
  | cross
  | entity
  deriving DecidableEq, Repr

/-- What takes two operands. -/
inductive BinaryForm where
  | arithmetic
  | concatenation
  deriving DecidableEq, Repr

/-- What takes a collection as its left operand. -/
inductive PluralForm where
  | isEmpty
  | memberOf
  deriving DecidableEq, Repr

inductive Fault where
  -- paths
  | uninterpretedPath (path : DottedName)
  | unboundVariable (name : String)
  | unboundStart (name : String) (path : DottedName)
  | unknownAttribute (name : String) (owner : TypeDescriptor) (path : DottedName)
  | unresolvedAttributeType (name : String)
  | ambiguousAttribute (name : String) (aliases : List String)
  | basicDereferenced (place : String)
  | collectionDereferenced (place : String)
  | indexOfNonCollection (base : DottedName) (type? : Option TypeDescriptor)
  | indexOfUnindexed (base : DottedName) (type : TypeDescriptor)
  | unknownTreatTarget (name : DottedName)
  | notImplementor (name polymorphic : String)
  | foreignSpace (element : FromElement)
  | outsideClauses (element : FromElement)
  | joinInBulk (path : String)
  -- elements and joins
  | implicitJoinFetched (path : String)
  | implicitJoinAliased (path : String)
  | unknownJoinAttribute (path : String) (source : FromElement)
  | joinFromPolymorphic (name : String) (source : FromElement)
  | basicJoin (path : String)
  | polymorphicJoin (name : String) (form : EntityJoinForm)
  | emptyJoinPath
  | joinPathWithoutVariable (path : DottedName)
  | memberJoinOfNonCollection (path : DottedName)
  -- spaces
  | rootPresent (existing element : FromElement)
  | joinWithoutRoot (element : FromElement)
  | spaceWithoutRoot
  | noOpenClause
  | unknownSpace
  -- scopes
  | aliasBound (existing element : FromElement)
  | duplicateSelection (aliasName : String)
  | selectionCollision (aliasName : String) (type? : Option TypeDescriptor) (element : FromElement)
  -- clauses
  | unknownEntity (name : DottedName)
  | nestedPolymorphism (name : String)
  | implicitSelectWithoutRoot
  | unrecognizedOrder (text : String)
  | polymorphicBulkTarget (name : DottedName)
  | joinsInBulkTarget (root : FromElement)
  | bulkTargetCount
  | notStateField (path : DottedName) (type? : Option TypeDescriptor)
  -- expressions
  | operandCount (form : BinaryForm) (count : Nat)
  | argumentCount (function : CollectionFunction) (count : Nat)
  | pluralArgument (function : CollectionFunction)
  | indexedArgument (function : CollectionFunction) (type : TypeDescriptor)
  | variableArgument
  | indexedJoinArgument (join : FromElement)
  | mapJoinArgument (function : MapFunction) (join : FromElement)
  | mapArgumentWithoutAlias (position : Nat)
  | unresolvableClass (name : DottedName)
  | pluralOperand (form : PluralForm) (type? : Option TypeDescriptor)
  | existenceOperand
  | membershipOperand
  | positionZero
  | mixedParameters
  | literal (fault : LiteralFault)
  /-- The strict language rejects the query. -/
  | strict (breach : Breach)
  deriving DecidableEq, Repr

namespace EntityJoinForm

def text : EntityJoinForm → String
  | cross => "cross join"
  | entity => "entity join"

end EntityJoinForm

namespace BinaryForm

def text : BinaryForm → String
  | arithmetic => "arithmetic expression"
  | concatenation => "concatenation"

end BinaryForm

namespace PluralForm

def text : PluralForm → String
  | isEmpty => "IS EMPTY"
  | memberOf => "MEMBER OF"

end PluralForm

/-- A map function as it is named in messages. -/
def mapFunctionText : MapFunction → String
  | .key => "Key"
  | .value => "Value"
  | .entry => "Entry"

/-- A type as it is named in messages, with a word for none. -/
def typeText (absent : String) (type? : Option TypeDescriptor) : String :=
  match type? with
  | some type => type.text
  | none => absent

namespace Fault

open Report (QueryError Code)

/-- The fault as it is reported. -/
def report : Fault → QueryError
  | uninterpretedPath path =>
    .meaning .uninterpretedToken s!"Could not interpret token '{path.text}'"
  | unboundVariable name =>
    .meaning .unboundVariable s!"Could not resolve identification variable '{name}'"
  | unboundStart name path =>
    .meaning .unboundVariable
      s!"Could not resolve identification variable '{name}' in '{path.text}'"
  | unknownAttribute name owner path =>
    .meaning .unknownAttribute
      s!"Could not resolve attribute '{name}' of '{owner.text}' in path '{path.text}'"
  | unresolvedAttributeType name =>
    .meaning .unknownAttribute s!"Could not resolve the type of attribute '{name}'"
  | ambiguousAttribute name aliases =>
    let between := String.intercalate ", " aliases
    .meaning .ambiguousAttribute s!"Unqualified attribute '{name}' is ambiguous between {between}"
  | basicDereferenced place =>
    .meaning .invalidJoin s!"Cannot dereference basic attribute {place}"
  | collectionDereferenced place =>
    .meaning .notCollection s!"Illegal attempt to dereference collection {place}"
  | indexOfNonCollection base type? =>
    let found := typeText "untyped" type?
    .meaning .notCollection
      s!"Index operator applied to '{base.text}', which is not a collection ({found})"
  | indexOfUnindexed base type =>
    .meaning .notCollection
      (s!"Index operator applied to '{base.text}' of type {type.text}, "
        ++ "which is not an indexed collection")
  | unknownTreatTarget name =>
    .meaning .invalidTreatTarget s!"Could not resolve treat target entity '{name.text}'"
  | notImplementor name polymorphic =>
    .meaning .invalidTreatTarget s!"'{name}' is not an implementor of '{polymorphic}'"
  | foreignSpace element =>
    .meaning .invalidJoin
      s!"Join predicate references {element.text} from another from element space"
  | outsideClauses element =>
    .meaning .invalidSpace s!"{element.text} does not belong to an open from clause"
  | joinInBulk path =>
    .meaning .invalidJoin s!"Implicit join '{path}' is not allowed in a bulk statement"
  | implicitJoinFetched path =>
    .shape .unexpectedShape s!"Implicit join '{path}' cannot be fetched"
  | implicitJoinAliased path =>
    .shape .unexpectedShape s!"Implicit join '{path}' cannot declare an alias"
  | unknownJoinAttribute path source =>
    .meaning .unknownAttribute
      s!"Could not resolve attribute of path '{path}' against {source.text}"
  | joinFromPolymorphic name source =>
    .meaning .invalidJoin
      s!"Cannot join '{name}' from unmapped polymorphic reference {source.text}"
  | basicJoin path => .meaning .invalidJoin s!"Cannot join basic attribute '{path}'"
  | polymorphicJoin name form =>
    .meaning .invalidJoin
      s!"Unmapped polymorphic reference '{name}' cannot be used in a {form.text}"
  | emptyJoinPath => .meaning .invalidJoin "Empty join path"
  | joinPathWithoutVariable path =>
    .meaning .invalidJoin s!"Join path '{path.text}' must start with an identification variable"
  | memberJoinOfNonCollection path =>
    .meaning .notCollection s!"Collection member join path '{path.text}' is not a collection"
  | rootPresent existing element =>
    .meaning .invalidSpace
      s!"From element space already has root {existing.text}; cannot set {element.text}"
  | joinWithoutRoot element =>
    .meaning .invalidSpace s!"Join {element.text} added to a from element space without root"
  | spaceWithoutRoot => .meaning .invalidSpace "From element space was closed without a root"
  | noOpenClause => .meaning .invalidSpace "No from clause under construction"
  | unknownSpace => .meaning .invalidSpace "Unknown from element space"
  | aliasBound existing element =>
    .aliasCollision element.aliasName
      (s!"Alias '{element.aliasName}' is already bound to {existing.text}; "
        ++ s!"cannot bind it to {element.text}")
  | duplicateSelection aliasName =>
    .aliasCollision aliasName s!"Result variable '{aliasName}' is defined more than once"
  | selectionCollision aliasName type? element =>
    let found := typeText "<unknown>" type?
    .aliasCollision aliasName
      (s!"Result variable '{aliasName}' of type {found} "
        ++ s!"collides with identification variable {element.text}")
  | unknownEntity name =>
    .meaning .unknownEntity s!"Could not resolve entity reference '{name.text}'"
  | nestedPolymorphism name =>
    .meaning .invalidJoin
      (s!"Unmapped polymorphic reference '{name}' is only supported "
        ++ "as a root of the outermost query")
  | implicitSelectWithoutRoot =>
    .meaning .invalidJoin "Implicit select clause requires a from clause root"
  | unrecognizedOrder text => .meaning .invalidSortOrder s!"Unrecognized sort ordering: {text}"
  | polymorphicBulkTarget name =>
    .meaning .invalidJoin s!"Bulk statement target '{name.text}' must be a mapped entity"
  | joinsInBulkTarget root =>
    .meaning .invalidJoin s!"Bulk statement on {root.text} cannot contain joins"
  | bulkTargetCount => .meaning .invalidJoin "Bulk statement must have exactly one target"
  | notStateField path type? =>
    let found := typeText "untyped" type?
    .meaning .invalidJoin s!"'{path.text}' is not a state field ({found})"
  | operandCount form count =>
    .shape .operandCount s!"Expecting 2 operands to {form.text}, found {count}"
  | argumentCount function count =>
    .shape .operandCount s!"Expecting 1 argument to {function.text}(), found {count}"
  | pluralArgument function =>
    .meaning .invalidCollectionArgument
      s!"{function.text}() requires a plural attribute reference"
  | indexedArgument function type =>
    .meaning .invalidCollectionArgument
      s!"{function.text}() requires an indexed collection, found {type.text}"
  | variableArgument =>
    .meaning .invalidCollectionArgument "index() requires an identification variable argument"
  | indexedJoinArgument join =>
    .meaning .invalidCollectionArgument
      s!"index() requires an indexed plural join, found {join.text}"
  | mapJoinArgument function join =>
    .meaning .invalidMapArgument
      s!"{mapFunctionText function}() requires a map-valued join, found {join.text}"
  | mapArgumentWithoutAlias position =>
    .meaning .invalidInstantiation
      s!"Map instantiation argument {position} must declare an alias to use as its key"
  | unresolvableClass name =>
    .meaning .unresolvableClass
      ("Could not resolve dynamic instantiation target: " ++ HostClass.absenceText name.text)
  | pluralOperand form type? =>
    let found := typeText "an untyped expression" type?
    .meaning .notCollection s!"{form.text} requires a collection-valued path; found {found}"
  | existenceOperand => .shape .unexpectedShape "Expecting a subquery as EXISTS operand"
  | membershipOperand =>
    .shape .unexpectedShape "Expecting a subquery on the right-hand side of IN"
  | positionZero => .meaning .invalidParameter "Positional parameters are 1-based; found ?0"
  | mixedParameters =>
    .meaning .invalidParameter "Cannot mix named and positional parameters in one statement"
  | literal fault => fault.report
  | strict breach => .compliance breach.violation breach.text

end Fault
end EntityQuery.Interpretation

import EntityQuery.Domain.TypeDescriptor
import EntityQuery.Text.CaseFolding

/-!
# Names with a fixed meaning

The standard functions with their result types, the reserved words of the strict language, the
functions on collections, and the words for a sort order. Case does not matter in any of them.
Types are inferred for standard functions only; any other function is passed on without a type.
-/

namespace EntityQuery

namespace Catalogue

/-- The standard functions, aggregates included. -/
def standardFunctions : List String :=
  ["abs", "avg", "coalesce", "concat", "count", "current_date", "current_time",
    "current_timestamp", "index", "length", "locate", "lower", "max", "min", "mod", "nullif",
    "size", "sqrt", "substring", "sum", "trim", "upper"]

/-- The words that the strict language refuses as identification variables. -/
def reservedWords : List String :=
  ["abs", "all", "and", "any", "as", "asc", "avg", "between", "bit_length", "both", "by", "case",
    "char_length", "character_length", "class", "coalesce", "concat", "count", "current_date",
    "current_time", "current_timestamp", "delete", "desc", "distinct", "else", "empty", "end",
    "entry", "escape", "exists", "false", "fetch", "from", "function", "group", "having", "in",
    "index", "inner", "is", "join", "key", "leading", "left", "length", "like", "locate", "lower",
    "max", "member", "min", "mod", "new", "not", "null", "nullif", "object", "of", "on", "or",
    "order", "outer", "position", "select", "set", "size", "some", "sqrt", "substring", "sum",
    "then", "trailing", "treat", "trim", "true", "type", "unknown", "update", "upper", "value",
    "when", "where"]

/-- The functions that are written without parentheses. -/
def niladicFunctions : List String := ["current_date", "current_time", "current_timestamp"]

def isStandardFunction (name : String) : Bool := standardFunctions.contains (Text.lowered name)

def isReserved (word : String) : Bool := reservedWords.contains (Text.lowered word)

def isNiladicFunction (name : String) : Bool := niladicFunctions.contains (Text.lowered name)

/-- The type of a sum: integers add up to a long integer and floats to a double. -/
def sumType? : Option TypeDescriptor → Option TypeDescriptor
  | some (.basic .integer) => some (.basic .long)
  | some (.basic .float) => some (.basic .double)
  | type => type

/-- The type of a call of a standard function with arguments of the given types. -/
def resultType? (name : String) (arguments : List (Option TypeDescriptor)) :
    Option TypeDescriptor :=
  let first := arguments.head?.join
  match Text.lowered name with
  | "count" => some (.basic .long)
  | "avg" | "sqrt" => some (.basic .double)
  | "sum" => sumType? first
  | "min" | "max" | "abs" | "coalesce" | "nullif" => first
  | "concat" | "lower" | "upper" | "trim" | "substring" => some (.basic .string)
  | "length" | "locate" | "mod" => some (.basic .integer)
  | "current_date" => some (.basic .date)
  | "current_time" => some (.basic .time)
  | "current_timestamp" => some (.basic .timestamp)
  | _ => none

/-- The type of an arithmetic operation: that of the operand of higher rank, the left one where
the ranks do not decide, the other one where an operand has no type. -/
def arithmeticType? : Option TypeDescriptor → Option TypeDescriptor → Option TypeDescriptor
  | none, right => right
  | left, none => left
  | some left, some right =>
    match left.rank?, right.rank? with
    | some l, some r => if l < r then some right else some left
    | _, _ => some left

end Catalogue

/-- The functions that take a collection. -/
inductive CollectionFunction where
  | size
  | index
  | elements
  | indices
  | maxElement
  | minElement
  | maxIndex
  | minIndex
  deriving DecidableEq, Repr

namespace CollectionFunction

def all : List CollectionFunction :=
  [size, index, elements, indices, maxElement, minElement, maxIndex, minIndex]

def text : CollectionFunction → String
  | size => "size"
  | index => "index"
  | elements => "elements"
  | indices => "indices"
  | maxElement => "maxelement"
  | minElement => "minelement"
  | maxIndex => "maxindex"
  | minIndex => "minindex"

/-- The function of a name. -/
def ofName? (name : String) : Option CollectionFunction :=
  let word := Text.lowered name
  all.find? fun function => function.text == word

/-- The strict language has no such function. -/
def isExtension : CollectionFunction → Bool
  | size => false
  | index => false
  | _ => true

end CollectionFunction

inductive SortOrder where
  | ascending
  | descending
  deriving DecidableEq, Repr

namespace SortOrder

def text : SortOrder → String
  | ascending => "asc"
  | descending => "desc"

/-- The order that a word stands for. -/
def ofText? (word : String) : Option SortOrder :=
  match Text.lowered word with
  | "asc" | "ascending" => some ascending
  | "desc" | "descending" => some descending
  | _ => none

end SortOrder
end EntityQuery

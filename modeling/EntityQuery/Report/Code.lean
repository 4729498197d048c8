/-!
# Report codes

Every error and every advisory carries a number. Numbers below 100 belong to rejected text, those
from 100 to unresolved meaning, those from 200 to the strict language, and those from 400 to
trees of an unexpected shape.
-/

namespace EntityQuery.Report

/-- The number of a report. -/
structure Code where
  number : Nat
  deriving DecidableEq, Repr

namespace Code

/-! ## Rejected text -/

def unexpectedToken : Code := ⟨1⟩
def unexpectedEnd : Code := ⟨2⟩

/-! ## Unresolved meaning -/

def uninterpretedToken : Code := ⟨100⟩
def unknownEntity : Code := ⟨101⟩
def unknownAttribute : Code := ⟨102⟩
def notCollection : Code := ⟨103⟩
def ambiguousAttribute : Code := ⟨104⟩
def aliasCollision : Code := ⟨105⟩
def malformedNumber : Code := ⟨106⟩
def invalidSortOrder : Code := ⟨107⟩
def unresolvableClass : Code := ⟨108⟩
def invalidJoin : Code := ⟨109⟩
def unboundVariable : Code := ⟨110⟩
def invalidTreatTarget : Code := ⟨111⟩
def invalidMapArgument : Code := ⟨112⟩
def invalidParameter : Code := ⟨113⟩
def invalidInstantiation : Code := ⟨114⟩
def invalidCollectionArgument : Code := ⟨115⟩
def invalidSpace : Code := ⟨116⟩

/-! ## The strict language -/

def implicitSelect : Code := ⟨200⟩
def aliasedFetchJoin : Code := ⟨201⟩
def unmappedPolymorphism : Code := ⟨202⟩
def nonStandardFunction : Code := ⟨203⟩
def collectionFunction : Code := ⟨204⟩
def valueOfNonMap : Code := ⟨205⟩
def reservedWordAsAlias : Code := ⟨206⟩
def subqueryOrderBy : Code := ⟨207⟩
def limitOffset : Code := ⟨208⟩

/-! ## Trees of an unexpected shape -/

def unexpectedShape : Code := ⟨400⟩
def operandCount : Code := ⟨401⟩
def malformedCharacter : Code := ⟨402⟩

/-! ## Properties of a code -/

/-- The code as written: the number with at least four digits behind a fixed mark. -/
def text (code : Code) : String :=
  let digits := toString code.number
  "HQL" ++ String.ofList (List.replicate (4 - digits.length) '0') ++ digits

/-- The code reports a rejected text. -/
def isSyntax (code : Code) : Bool := 1 ≤ code.number && code.number < 100

/-- The code reports an unresolved meaning. -/
def isSemantic (code : Code) : Bool := 100 ≤ code.number && code.number < 200

/-- The code reports a violation of the strict language. -/
def isCompliance (code : Code) : Bool := 200 ≤ code.number && code.number < 300

/-- The code reports a tree of an unexpected shape. -/
def isInternal (code : Code) : Bool := 400 ≤ code.number && code.number < 500

/-- A short description of what the code reports. -/
def description (code : Code) : String :=
  match code.number with
  | 1 => "Unexpected token"
  | 2 => "Unexpected end of input"
  | 3 => "Unterminated string literal"
  | 4 => "Invalid number format"
  | 5 => "Expected expression"
  | 6 => "Expected identifier"
  | 7 => "Missing closing delimiter"
  | 100 => "Could not interpret token"
  | 101 => "Unknown entity"
  | 102 => "Unknown attribute"
  | 103 => "Not a collection"
  | 104 => "Ambiguous attribute reference"
  | 105 => "Alias collision"
  | 106 => "Malformed numeric literal"
  | 107 => "Invalid sort ordering"
  | 108 => "Unresolvable class"
  | 109 => "Invalid join"
  | 110 => "Unbound identification variable"
  | 111 => "Invalid treat target"
  | 112 => "Invalid map function argument"
  | 113 => "Invalid parameter"
  | 114 => "Invalid dynamic instantiation"
  | 115 => "Invalid collection function argument"
  | 116 => "Invalid from element space"
  | 200 => "Implicit select clause"
  | 201 => "Aliased fetch join"
  | 202 => "Unmapped polymorphic reference"
  | 203 => "Non-standard function call"
  | 204 => "HQL collection function"
  | 205 => "VALUE() applied to a non-map collection"
  | 206 => "Reserved word used as alias"
  | 207 => "ORDER BY in subquery"
  | 208 => "LIMIT/OFFSET clause"
  | 400 => "Unexpected parse tree shape"
  | 401 => "Invalid operand count"
  | 402 => "Invalid character literal"
  | _ => "Unknown error"

/-- Advice that some codes come with. -/
def help? (code : Code) : Option String :=
  match code.number with
  | 100 => some "Check that the alias, entity name or constant is spelled correctly"
  | 104 => some "Qualify the attribute with an identification variable"
  | 200 => some "Add an explicit SELECT clause"
  | 400 => some "This indicates a mismatch between the parser and the analyzer"
  | _ => none

end Code
end EntityQuery.Report

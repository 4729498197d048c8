import EntityQuery.Grammar.Query

/-!
# Statements of the grammar

The grammar is tied by depth: at depth zero nothing is read, and each further depth is one layer of
productions over the depth below. Whenever a production enters the grammar again, it has read at
least one character, so a depth greater than the length of the text is never used up.
-/

namespace EntityQuery.Grammar

open EntityQuery.Phrase
open Reader (accepts)

namespace Inner

/-- The grammar that reads nothing. -/
def none : Inner :=
  ⟨Reader.fail, Reader.fail, Reader.fail, Reader.fail, Reader.fail, Reader.fail⟩

/-- One layer of the grammar over another. -/
def layer (inner : Inner) : Inner :=
  ⟨disjunction inner, Grammar.negatable inner, concatenation inner, Grammar.signed inner,
    Grammar.query inner, Grammar.instantiation inner⟩

/-- The grammar to a depth. -/
def ofDepth : Nat → Inner
  | 0 => none
  | depth + 1 => layer (ofDepth depth)

end Inner

/-! ## Statements -/

def assignment (inner : Inner) : Reader Assignment := do
  let path ← dottedIdentifier
  sign "="
  let value ← concatenation inner
  return ⟨path, value⟩

/-- Reads an update after its keyword. -/
def update (inner : Inner) : Reader Statement := do
  let target ← root
  keyword "set"
  let assignments ← Reader.separated (sign ",") (assignment inner)
  let restriction ← clause? "where" (disjunction inner)
  return .update target assignments restriction

/-- Reads a deletion after its keyword. -/
def deletion (inner : Inner) : Reader Statement := do
  let _ ← accepts (keyword "from")
  let target ← root
  let restriction ← clause? "where" (disjunction inner)
  return .delete target restriction

/-- Reads an insertion after its keyword. -/
def insertion (inner : Inner) : Reader Statement := do
  keyword "into"
  let target ← dottedName
  sign "("
  let stateFields ← Reader.separated (sign ",") dottedIdentifier
  sign ")"
  if ← Reader.look (beginsWithWord "select") then
    let query ← query inner
    return .insert target stateFields query
  else Reader.fail

/-- Reads a statement. -/
def statement (inner : Inner) : Reader Statement := do
  blanks
  if ← accepts (exactKeyword "update") then update inner
  else if ← accepts (exactKeyword "delete") then deletion inner
  else if ← accepts (exactKeyword "insert") then insertion inner
  else
    let query ← query inner
    return .select query

end EntityQuery.Grammar

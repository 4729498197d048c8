import EntityQuery.Grammar.Predicate

/-!
# Queries of the grammar

A query is an optional selection, the spaces that it ranges over, and optional clauses for
restriction, order, limit and offset. Each space is a root with joins.
-/

namespace EntityQuery.Grammar

open EntityQuery.Phrase
open Reader (accepts optional look)

/-- Reads a clause behind its keyword, if the keyword is there. -/
def clause? {α : Type} (word : String) (content : Reader α) : Reader (Option α) := do
  if ← accepts (keyword word) then
    let value ← content
    return some value
  else return none

/-- Reads an alias, which has to be there behind its keyword. -/
def optionalAlias : Reader (Option String) := do
  if ← accepts (keyword "as") then
    let name ← identifier
    return some name
  else optional identifier

/-- Reads an entity name with its variable. -/
def root : Reader Root := do
  let entity ← dottedName
  let alias? ← optionalAlias
  return ⟨entity, alias?⟩

/-! ## Selection -/

/-- Reads a word and an opening parenthesis, or nothing. -/
def opening (word : String) : Reader Bool :=
  accepts do
    keyword word
    sign "("

/-- Reads what is selected. -/
def selectExpression (inner : Inner) : Reader SelectExpression := do
  if ← accepts (keyword "new") then inner.instantiation
  else if ← opening "object" then
    let name ← identifier
    sign ")"
    return .object name
  else
    let expression ← concatenation inner
    return .expression expression

def selectItem (inner : Inner) : Reader SelectItem := do
  let expression ← selectExpression inner
  let alias? ← optionalAlias
  return ⟨expression, alias?⟩

def selectItems (inner : Inner) : Reader (List SelectItem) :=
  Reader.separated (sign ",") (selectItem inner)

def selectClause (inner : Inner) : Reader SelectClause := do
  let distinct ← accepts (keyword "distinct")
  let items ← selectItems inner
  return ⟨distinct, items⟩

/-- What a name instantiates: lists and maps go by single words in any case. -/
def targetOf (name : DottedName) : Target :=
  if name.isSimple && Text.sameWord name.first "list" then .list
  else if name.isSimple && Text.sameWord name.first "map" then .map
  else .hostClass name

/-- Reads an instantiation after its keyword. -/
def instantiation (inner : Inner) : Reader SelectExpression := do
  let name ← dottedName
  sign "("
  let items ← selectItems inner
  sign ")"
  return .instantiation (targetOf name) items

/-! ## Spaces -/

/-- Reads a collection that is joined like a root, after its keyword. -/
def collectionJoin : Reader Join := do
  sign "("
  let path ← dottedIdentifier
  sign ")"
  let alias? ← optionalAlias
  return .collection path alias?

/-- Reads the type of a join, if one is given. -/
def joinType? : Reader (Option JoinType) := do
  if ← accepts (keyword "inner") then return some .inner
  else if ← accepts (keyword "left") then
    let _ ← accepts (keyword "outer")
    return some .left
  else if ← accepts (keyword "right") then
    let _ ← accepts (keyword "outer")
    return some .right
  else if ← accepts (keyword "full") then
    let _ ← accepts (keyword "outer")
    return some .full
  else return none

/-- Reads the beginning of a join up to its keyword. Without the keyword nothing is read, and a
type alone is refused. -/
def joinOpening : Reader (Option JoinType) := fun start =>
  (do
    let type? ← joinType?
    if ← accepts (keyword "join") then return some (type?.getD .inner)
    else if type?.isSome then Reader.failAt start
    else Reader.backTo start none) start

def joinTarget : Reader JoinTarget := do
  if ← opening "treat" then
    let path ← dottedIdentifier
    keyword "as"
    let entity ← dottedName
    sign ")"
    return .treated path entity
  else
    let path ← dottedName
    return .plain path

/-- Reads the predicate of a join, if one is given. -/
def joinPredicate (inner : Inner) : Reader (Option Predicate) := do
  if ← accepts (keyword "on") then
    let predicate ← disjunction inner
    return some predicate
  else clause? "with" (disjunction inner)

/-- Reads a join, if there is one. -/
def join? (inner : Inner) : Reader (Option Join) := do
  if ← accepts (keyword "cross") then
    keyword "join"
    let root ← root
    return some (.cross root)
  else match ← joinOpening with
    | none => return none
    | some type =>
      let fetch ← accepts (keyword "fetch")
      let target ← joinTarget
      let alias? ← optionalAlias
      let predicate ← joinPredicate inner
      return some (.qualified type fetch target alias? predicate)

def space (inner : Inner) : Reader Space := do
  let root ← root
  let joins ← Reader.many (join? inner)
  return ⟨root, joins⟩

/-- The spaces with a join added to the last. -/
def addToLast (join : Join) : List Space → List Space
  | [] => []
  | [⟨root, joins⟩] => [⟨root, joins ++ [join]⟩]
  | space :: spaces => space :: addToLast join spaces

/-- Reads the spaces: the first one, and behind every comma a further one or a collection that is
joined to the last. -/
def spaces (inner : Inner) : Reader (List Space) := do
  let first ← space inner
  Reader.chain (fun spaces => do
    if ← accepts (sign ",") then
      if ← accepts (keyword "in") then
        let join ← collectionJoin
        return some (addToLast join spaces)
      else
        let next ← space inner
        return some (spaces ++ [next])
    else return none) [first]

/-! ## Order and the whole query -/

def sortItem (inner : Inner) : Reader SortItem := do
  let expression ← concatenation inner
  let collation ← clause? "collate" dottedName
  let ordering ← optional identifier
  return ⟨expression, collation.map DottedName.text, ordering⟩

def orderClause (inner : Inner) : Reader (List SortItem) := do
  keyword "by"
  Reader.separated (sign ",") (sortItem inner)

/-- Reads a query. -/
def query (inner : Inner) : Reader Query := do
  let select ← clause? "select" (selectClause inner)
  keyword "from"
  let spaces ← spaces inner
  let restriction ← clause? "where" (disjunction inner)
  let order ← clause? "order" (orderClause inner)
  let limit ← clause? "limit" (concatenation inner)
  let offset ← clause? "offset" (concatenation inner)
  return ⟨select, spaces, restriction, order, limit, offset⟩

end EntityQuery.Grammar

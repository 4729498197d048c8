import EntityQuery.Grammar.Reading
import EntityQuery.Interpretation.Query

/-!
# The meaning of statements

A bulk statement has one mapped entity as its target. Its assignments and its restriction reach
state fields of the target without joins; queries nested in it are interpreted as usual, but must
not join anything to the target.

* `Step.statement`: the meaning of a statement.
* `interpret`: from the text of a statement to its meaning with marks and advisories.
-/

namespace EntityQuery.Interpretation

namespace Step

/-- The root of the target of a bulk statement. -/
def bulkTarget (written : Phrase.Root) : Step FromElement := do
  let element ← root (← openSpace) written
  if element.isPolymorphic then throw (.polymorphicBulkTarget written.entity)
  return element

/-- The one space of a bulk statement, to which nothing is joined. -/
def singleSpace (spaces : List Resolved.Space) : Except Fault Resolved.Space :=
  match spaces with
  | [space] =>
    if space.joins.isEmpty then .ok space else .error (.joinsInBulkTarget space.root)
  | _ => .error .bulkTargetCount

/-- The attribute that a path refers to. -/
def stateField (field : DottedName) : Step Resolved.AttributeReference := do
  match ← path field with
  | .reference reference => return reference
  | other => throw (.notStateField field other.type?)

def bulkRestriction (condition : Option Phrase.Predicate) : Step (Option Resolved.Predicate) := do
  match condition with
  | none => return none
  | some written => return some (← under .bulk (predicate written))

def assignment (written : Phrase.Assignment) : Step Resolved.Assignment :=
  under .bulk do
    let target ← stateField written.path
    let value ← expression written.value
    return ⟨target, value⟩

def update (target : Phrase.Root) (assignments : List Phrase.Assignment)
    (condition : Option Phrase.Predicate) : Step Resolved.Statement := do
  let ((assignments, condition), spaces) ← onLevel do
    let _ ← bulkTarget target
    let assignments ← assignments.mapM assignment
    let condition ← bulkRestriction condition
    return (assignments, condition)
  return .update (← ofExcept (singleSpace spaces)) assignments condition

def delete (target : Phrase.Root) (condition : Option Phrase.Predicate) :
    Step Resolved.Statement := do
  let (condition, spaces) ← onLevel do
    let _ ← bulkTarget target
    bulkRestriction condition
  return .delete (← ofExcept (singleSpace spaces)) condition

/-- The state fields of an insertion are taken from its target; the query is interpreted when the
target has been left. -/
def insert (target : DottedName) (fields : List DottedName) (written : Phrase.Query) :
    Step Resolved.Statement := do
  let (fields, spaces) ← onLevel do
    let element ← bulkTarget ⟨target, none⟩
    under .bulk (fields.mapM fun field => stateField ⟨element.aliasName :: field.parts⟩)
  let select ← query written false
  return .insert (← ofExcept (singleSpace spaces)) fields select

/-- The meaning of a statement. -/
def statement : Phrase.Statement → Step Resolved.Statement
  | .select written => do
    return .select (← query written false)
  | .update target assignments condition => update target assignments condition
  | .delete target condition => delete target condition
  | .insert target fields written => insert target fields written

end Step

/-- A statement with the marks of its elements and the advisories about it. -/
structure Meaning where
  statement : Resolved.Statement
  narrowings : Narrowings
  advisories : List Report.Advisory

end EntityQuery.Interpretation

namespace EntityQuery

open Interpretation

/-- The meaning of a phrase in a domain. -/
def interpretPhrase (phrase : Phrase.Statement) (schema : Schema) : Except Fault Meaning :=
  match (Step.statement phrase).run' schema .empty with
  | (.ok statement, context) => .ok ⟨statement, context.narrowings, context.advisories⟩
  | (.error fault, _) => .error fault

/-- The meaning of a text in a domain. -/
def interpret (text : String) (schema : Schema) : Except Report.QueryError Meaning := do
  let phrase ← Phrase.Statement.ofText text
  (interpretPhrase phrase schema).mapError Fault.report

end EntityQuery

import EntityQuery.Report.Compliance
import EntityQuery.Text.Position

/-!
# Errors as they are reported

A failed operation hands out a `QueryError`: a kind, a code and a text. The causes inside the
library are finer; this is the form in which they leave it.
-/

namespace EntityQuery.Report

/-- An error as it leaves the library. -/
inductive QueryError where
  /-- The text was rejected by the grammar. -/
  | rejectedText (code : Code) (message : String) (query : String) (location : Option Location)
  /-- A tree had a shape that the grammar rules out. -/
  | shape (code : Code) (message : String)
  /-- A name, a type or a clause has no meaning. -/
  | meaning (code : Code) (message : String)
  /-- A numeric literal could not be read; the text is kept with its suffix. -/
  | numberFormat (literal : String) (cause : String)
  /-- Two bindings of one scope have the same alias. -/
  | aliasCollision (aliasName : String) (message : String)
  /-- The strict language rejects a construct. -/
  | compliance (violation : Violation) (message : String)
  deriving DecidableEq, Repr

namespace QueryError

def code : QueryError → Code
  | rejectedText code _ _ _ => code
  | shape code _ => code
  | meaning code _ => code
  | numberFormat _ _ => Code.malformedNumber
  | aliasCollision _ _ => Code.aliasCollision
  | compliance violation _ => violation.code

/-- What is said after the code. -/
def message : QueryError → String
  | rejectedText _ message _ _ => message
  | shape _ message => message
  | meaning _ message => message
  | numberFormat literal cause => s!"could not interpret numeric literal '{literal}': {cause}"
  | aliasCollision _ message => message
  | compliance violation message =>
    s!"strict JPQL compliance violation ({violation.text}): {message}"

/-- The whole text of the error. -/
def text (error : QueryError) : String := s!"{error.code.text}: {error.message}"

/-- The error concerns the meaning of a well-formed text. -/
def isSemantic : QueryError → Bool
  | rejectedText .. => false
  | shape .. => false
  | _ => true

/-- The violated rule of the strict language, if the error is of that kind. -/
def violation? : QueryError → Option Violation
  | compliance violation _ => some violation
  | _ => none

def location? : QueryError → Option Location
  | rejectedText _ _ _ location => location
  | _ => none

end QueryError
end EntityQuery.Report

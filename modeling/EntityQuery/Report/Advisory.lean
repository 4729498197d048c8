import EntityQuery.Report.Code

/-!
# Advisories

An advisory points at a construct that is understood but not portable. It never stops the
interpretation of a query.
-/

namespace EntityQuery.Report

/-- A warning about a construct. -/
structure Advisory where
  code : Code
  message : String
  deriving DecidableEq, Repr

namespace Advisory

/-- The advice registered for the code of the advisory. -/
def help? (advisory : Advisory) : Option String := advisory.code.help?

/-- Every advisory is a warning. -/
def severity (_ : Advisory) : String := "warning"

def text (advisory : Advisory) : String :=
  let line := s!"{advisory.severity}: {advisory.code.text} - {advisory.message}"
  match advisory.help? with
  | some help => s!"{line} ({help})"
  | none => line

end Advisory
end EntityQuery.Report

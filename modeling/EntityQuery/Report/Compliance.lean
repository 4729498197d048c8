import EntityQuery.Report.Code

/-!
# Violations of the strict language

The strict language is the portable part of the query language. Each construct outside it is one
kind of violation with a code of its own.
-/

namespace EntityQuery.Report

/-- A construct that the strict language rejects. -/
inductive Violation where
  | implicitSelect
  | aliasedFetchJoin
  | unmappedPolymorphism
  | functionCall
  | collectionFunction
  | valueOfNonMap
  | reservedWordAsAlias
  | subqueryOrderBy
  | limitOffset
  deriving DecidableEq, Repr

namespace Violation

def code : Violation → Code
  | implicitSelect => Code.implicitSelect
  | aliasedFetchJoin => Code.aliasedFetchJoin
  | unmappedPolymorphism => Code.unmappedPolymorphism
  | functionCall => Code.nonStandardFunction
  | collectionFunction => Code.collectionFunction
  | valueOfNonMap => Code.valueOfNonMap
  | reservedWordAsAlias => Code.reservedWordAsAlias
  | subqueryOrderBy => Code.subqueryOrderBy
  | limitOffset => Code.limitOffset

/-- The construct as it is named in an error text. -/
def text : Violation → String
  | implicitSelect => "implicit select clause"
  | aliasedFetchJoin => "aliased fetch join"
  | unmappedPolymorphism => "unmapped polymorphism"
  | functionCall => "non-standard function call"
  | collectionFunction => "HQL collection function"
  | valueOfNonMap => "VALUE() on non-map"
  | reservedWordAsAlias => "reserved word used as alias"
  | subqueryOrderBy => "subquery ORDER BY"
  | limitOffset => "LIMIT/OFFSET clause"

/-- Different violations have different codes. -/
theorem code_injective : ∀ a b : Violation, a.code = b.code → a = b := by
  intro a b
  cases a <;> cases b <;> decide

theorem isCompliance_code (violation : Violation) : violation.code.isCompliance = true := by
  cases violation <;> decide

end Violation
end EntityQuery.Report

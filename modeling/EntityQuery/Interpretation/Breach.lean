import EntityQuery.Report.Error
import EntityQuery.Resolved.Catalogue
import EntityQuery.Resolved.FromElement
import EntityQuery.Text.DottedName

/-!
# Breaches of the strict language

What the strict language rejects in a query that is understood otherwise. A breach names the part
of the query that it was found in.
-/

namespace EntityQuery.Interpretation

inductive Breach where
  | implicitSelect
  | aliasedFetchJoin (path : DottedName)
  | unmappedPolymorphism (name : String)
  | functionCall (name : String)
  | collectionFunction (function : CollectionFunction)
  | valueOfNonMap (join : FromElement)
  | reservedWordAsAlias (aliasName : String)
  | subqueryOrderBy
  | limitOffset
  deriving DecidableEq, Repr

namespace Breach

/-- The rule that is broken. -/
def violation : Breach → Report.Violation
  | implicitSelect => .implicitSelect
  | aliasedFetchJoin _ => .aliasedFetchJoin
  | unmappedPolymorphism _ => .unmappedPolymorphism
  | functionCall _ => .functionCall
  | collectionFunction _ => .collectionFunction
  | valueOfNonMap _ => .valueOfNonMap
  | reservedWordAsAlias _ => .reservedWordAsAlias
  | subqueryOrderBy => .subqueryOrderBy
  | limitOffset => .limitOffset

def text : Breach → String
  | implicitSelect => "Encountered implicit select clause"
  | aliasedFetchJoin path => s!"Fetch join '{path.text}' declares an alias"
  | unmappedPolymorphism name => s!"Unmapped polymorphic reference '{name}'"
  | functionCall name => s!"Encountered non-JPQL function call '{name}'"
  | collectionFunction function => s!"Encountered HQL collection function {function.text}()"
  | valueOfNonMap join => s!"VALUE() applied to non-map reference {join.text}"
  | reservedWordAsAlias aliasName =>
    s!"'{aliasName}' is a reserved word and cannot be used as an alias"
  | subqueryOrderBy => "ORDER BY is not allowed in a subquery"
  | limitOffset => "LIMIT and OFFSET are not part of JPQL"

end Breach
end EntityQuery.Interpretation

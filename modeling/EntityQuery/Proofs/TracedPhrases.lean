import EntityQuery.Proofs.ImplicitJoins
import EntityQuery.Proofs.Renders

/-!
# Paths that are traced to their variables

A path that starts with a variable stands for an attribute, and the attribute is taken from the
implicit joins over all names between the two, starting from the element that the variable denotes.
A tree traces a phrase if this is so for every path of the phrase, whatever clause or nested query
it is written in. What a variable denotes follows from the elements that were written before, in the
queries around the path. Exempt are the clauses of bulk statements, which make no joins, attributes
behind an index or a narrowing, and the arguments of functions on joins.

* `FromElement.ImplicitWay`: implicit joins along names.
* `FromElement.seen`: the written elements with one more.
* `DottedName.LeadsTo`: what a path with a variable in front stands for.
* `Phrase.Expression.Traces`, `Phrase.Query.Traces`, `Phrase.Statement.Traces`: form by form.
-/

namespace EntityQuery

namespace FromElement

/-- The element is reached from the origin by implicit joins, one over each name. -/
def ImplicitWay (origin : FromElement) : List String → FromElement → Prop
  | [], element => element = origin
  | name :: names, element =>
    ∃ join : FromElement, join.implicitStep? = some (origin, name) ∧ join.ImplicitWay names element

/-- The written elements, newest first, after one more element. -/
def seen (visible : List FromElement) (element : FromElement) : List FromElement :=
  if element.isDeclared then element :: visible else visible

/-- The element is denoted by a variable: it is the newest written element of that name, or one
whose made-up variable was written. -/
def DenotedBy (visible : List FromElement) (name : String) (element : FromElement) : Prop :=
  visible.find? (fun other => other.aliasName == name) = some element
    ∨ (∃ number, name = Interpretation.Context.generatedAlias number) ∧ element.aliasName = name

end FromElement

namespace Resolved

/-- The expression is what names lead to from an element: the element itself, or the attribute of
the last name, taken from the implicit joins over the other names. -/
def Expression.LedFrom (origin : FromElement) (names : List String) (node : Expression) : Prop :=
  match names.getLast? with
  | none => node = .element origin
  | some last => ∃ source declared type, node = .reference (.mk (.element source) declared type)
      ∧ declared.name = last ∧ origin.ImplicitWay names.dropLast source

theorem Expression.ledFrom_nil {origin : FromElement} {names : List String}
    (h : names.getLast? = none) : (Expression.element origin).LedFrom origin names := by
  simp [LedFrom, h]

theorem Expression.ledFrom_last {origin source : FromElement} {names : List String}
    {last : String} (h : names.getLast? = some last) {declared : Attribute} {type : TypeDescriptor}
    (hname : declared.name = last) (hway : origin.ImplicitWay names.dropLast source) :
    (Expression.reference (.mk (.element source) declared type)).LedFrom origin names := by
  simp only [LedFrom, h]
  exact ⟨source, declared, type, rfl, hname, hway⟩

mutual

/-- The innermost collection that an index selects in on the way to an attribute. -/
def AttributeReference.indexed? : AttributeReference → Option AttributeReference
  | .mk source _ _ => source.indexed?

def PathSource.indexed? : PathSource → Option AttributeReference
  | .element _ => none
  | .indexed (.mk collection _ _) => some collection
  | .reference attained => attained.indexed?

end

/-- The collection that an index selects in on the way to what a path stands for. -/
def Expression.indexed? : Expression → Option AttributeReference
  | .reference attained => attained.indexed?
  | .indexed (.mk collection _ _) => some collection
  | _ => none

/-- The written elements after those of a space. -/
def Space.seen (visible : List FromElement) (space : Space) : List FromElement :=
  space.elements.foldl FromElement.seen visible

end Resolved

/-- A path with a visible variable in front leads from the element that the variable denotes; an
attribute that a path without one stands for is led to from an element that has the first name as
an attribute. -/
def DottedName.LeadsTo (visible : List FromElement) (path : DottedName)
    (node : Resolved.Expression) : Prop :=
  match path.parts with
  | [] => False
  | first :: names =>
    (∃ origin, origin.DenotedBy visible first ∧ node.LedFrom origin names)
      ∨ visible.find? (fun other => other.aliasName == first) = none
        ∧ ∀ attained, node = .reference attained → ∃ owner, node.LedFrom owner (first :: names)

theorem DottedName.leadsTo_cons {visible : List FromElement} {path : DottedName} {first : String}
    {names : List String} (h : path.parts = first :: names) {node : Resolved.Expression} :
    path.LeadsTo visible node ↔
      (∃ origin, origin.DenotedBy visible first ∧ node.LedFrom origin names)
        ∨ visible.find? (fun other => other.aliasName == first) = none
          ∧ ∀ attained, node = .reference attained →
            ∃ owner, node.LedFrom owner (first :: names) := by
  simp only [LeadsTo, h]

namespace Phrase

mutual

/-- Every path of the expression is traced in the tree; `bulk` says that the expression is written
in a clause of a bulk statement. -/
def Expression.Traces (bulk : Bool) (visible : List FromElement) :
    Expression → Resolved.Expression → Prop
  | .path dotted, node => bulk = false → dotted.LeadsTo visible node
  | .indexed base index _, node =>
    (∃ rendered, node.indices = [rendered] ∧ index.Traces bulk visible rendered)
      ∧ ∃ collection, node.indexed? = some collection
        ∧ (bulk = false → base.LeadsTo visible (.reference collection))
  | .arithmetic operator [left, right], node =>
    ∃ first second type?, node = .arithmetic operator first second type?
      ∧ left.Traces bulk visible first ∧ right.Traces bulk visible second
  | .arithmetic _ _, _ => False
  | .concatenation [left, right], node =>
    ∃ first second, node = .concatenation first second ∧ left.Traces bulk visible first
      ∧ right.Traces bulk visible second
  | .concatenation _, _ => False
  | .unary sign operand, node =>
    ∃ rendered, node = .unary sign rendered ∧ operand.Traces bulk visible rendered
  | .grouped inner, node => inner.Traces bulk visible node
  | .call name generic distinct star arguments, node =>
    match if generic then none else CollectionFunction.ofName? name with
    | some function =>
      ∃ argument type?, node = .collectionFunction function argument type?
        ∧ (function = .index ∨ expressionsTrace bulk visible arguments [argument])
    | none =>
      ∃ standard rendered type?, node = .call name distinct star standard rendered type?
        ∧ expressionsTrace bulk visible arguments rendered
  | .simpleCase operand whens otherwise, node =>
    ∃ rendered branches default type?, node = .simpleCase rendered branches default type?
      ∧ operand.Traces bulk visible rendered ∧ simpleWhensTrace bulk visible whens branches
      ∧ optionalTraces bulk visible otherwise default
  | .searchedCase whens otherwise, node =>
    ∃ branches default type?, node = .searchedCase branches default type?
      ∧ searchedWhensTrace bulk visible whens branches
      ∧ optionalTraces bulk visible otherwise default
  | .subquery query, node =>
    ∃ select type?, node = .subquery (.mk select type?) ∧ query.Traces visible select
  | .literal _, _ => True
  | .parameter _, _ => True
  | .treated _ _ _, _ => True
  | .mapFunction _ _, _ => True

def expressionsTrace (bulk : Bool) (visible : List FromElement) :
    List Expression → List Resolved.Expression → Prop
  | [], nodes => nodes = []
  | first :: rest, nodes =>
    ∃ node others, nodes = node :: others ∧ first.Traces bulk visible node
      ∧ expressionsTrace bulk visible rest others

def optionalTraces (bulk : Bool) (visible : List FromElement) :
    Option Expression → Option Resolved.Expression → Prop
  | none, node => node = none
  | some written, node => ∃ rendered, node = some rendered ∧ written.Traces bulk visible rendered

def simpleWhensTrace (bulk : Bool) (visible : List FromElement) :
    List SimpleWhen → List Resolved.SimpleWhen → Prop
  | [], nodes => nodes = []
  | .mk value result :: rest, nodes =>
    ∃ compared found others, nodes = .mk compared found :: others
      ∧ value.Traces bulk visible compared ∧ result.Traces bulk visible found
      ∧ simpleWhensTrace bulk visible rest others

def searchedWhensTrace (bulk : Bool) (visible : List FromElement) :
    List SearchedWhen → List Resolved.SearchedWhen → Prop
  | [], nodes => nodes = []
  | .mk condition result :: rest, nodes =>
    ∃ tested found others, nodes = .mk tested found :: others
      ∧ condition.Traces bulk visible tested ∧ result.Traces bulk visible found
      ∧ searchedWhensTrace bulk visible rest others

/-- Every path of the predicate is traced in the tree. -/
def Predicate.Traces (bulk : Bool) (visible : List FromElement) :
    Predicate → Resolved.Predicate → Prop
  | .and left right, node =>
    ∃ first second, node = .and first second ∧ left.Traces bulk visible first
      ∧ right.Traces bulk visible second
  | .or left right, node =>
    ∃ first second, node = .or first second ∧ left.Traces bulk visible first
      ∧ right.Traces bulk visible second
  | .not inner, node => ∃ rendered, node = .not rendered ∧ inner.Traces bulk visible rendered
  | .grouped inner, node =>
    ∃ rendered, node = .grouped rendered ∧ inner.Traces bulk visible rendered
  | .comparison operator left right, node =>
    ∃ first second, node = .comparison operator first second ∧ left.Traces bulk visible first
      ∧ right.Traces bulk visible second
  | .between expression lower upper negated, node =>
    ∃ tested first second, node = .between tested first second negated
      ∧ expression.Traces bulk visible tested ∧ lower.Traces bulk visible first
      ∧ upper.Traces bulk visible second
  | .like expression pattern escape negated, node =>
    ∃ matched shape mark, node = .like matched shape mark negated
      ∧ expression.Traces bulk visible matched ∧ pattern.Traces bulk visible shape
      ∧ optionalTraces bulk visible escape mark
  | .inList expression items negated, node =>
    ∃ tested rendered, node = .inList tested rendered negated
      ∧ expression.Traces bulk visible tested ∧ expressionsTrace bulk visible items rendered
  | .inSubquery expression (.subquery query) negated, node =>
    ∃ tested select type?, node = .inSubquery tested (.mk select type?) negated
      ∧ expression.Traces bulk visible tested ∧ query.Traces visible select
  | .inSubquery _ _ _, _ => False
  | .isNull expression negated, node =>
    ∃ tested, node = .isNull tested negated ∧ expression.Traces bulk visible tested
  | .isEmpty expression negated, node =>
    ∃ collection, node = .isEmpty collection negated
      ∧ expression.Traces bulk visible (.reference collection)
  | .memberOf element collection negated, node =>
    ∃ plural other, node = .memberOf plural other negated
      ∧ element.Traces bulk visible (.reference plural) ∧ collection.Traces bulk visible other
  | .existence (.subquery query) negated, node =>
    ∃ select type?, node = .existence (.mk select type?) negated ∧ query.Traces visible select
  | .existence _ _, _ => False

def restrictionTraces (bulk : Bool) (visible : List FromElement) :
    Option Predicate → Option Resolved.Predicate → Prop
  | none, node => node = none
  | some written, node => ∃ rendered, node = some rendered ∧ written.Traces bulk visible rendered

def SelectExpression.Traces (visible : List FromElement) :
    SelectExpression → Resolved.Expression → Prop
  | .instantiation _ items, node =>
    ∃ target arguments, node = .instantiation target arguments
      ∧ argumentsTrace visible items arguments
  | .object _, _ => True
  | .expression written, node => written.Traces false visible node

def argumentsTrace (visible : List FromElement) :
    List SelectItem → List Resolved.Argument → Prop
  | [], nodes => nodes = []
  | .mk written alias? :: rest, nodes =>
    ∃ value others, nodes = .mk value alias? :: others ∧ written.Traces visible value
      ∧ argumentsTrace visible rest others

def selectionsTrace (visible : List FromElement) :
    List SelectItem → List Resolved.Selection → Prop
  | [], nodes => nodes = []
  | .mk written alias? :: rest, nodes =>
    ∃ value others, nodes = .mk value alias? :: others ∧ written.Traces visible value
      ∧ selectionsTrace visible rest others

def clauseTraces (visible : List FromElement) :
    Option SelectClause → List Resolved.Selection → Prop
  | none, _ => True
  | some (.mk _ items), nodes => selectionsTrace visible items nodes

/-- The restriction of a join is traced in the restriction that stands at the join. -/
def Join.Traces (visible : List FromElement) : Join → Resolved.Join → Prop
  | .cross _, _ => True
  | .collection _ _, _ => True
  | .qualified _ _ _ _ predicate, node =>
    restrictionTraces false visible predicate node.restriction

/-- Each join sees the elements that were written before it, and its own. -/
def joinsTrace (visible : List FromElement) : List Join → List Resolved.Join → Prop
  | [], nodes => nodes = []
  | first :: rest, nodes =>
    ∃ node others, nodes = node :: others ∧ first.Traces (node.element.seen visible) node
      ∧ joinsTrace (node.element.seen visible) rest others

def Space.Traces (visible : List FromElement) : Space → Resolved.Space → Prop
  | .mk _ joins, node =>
    joinsTrace (node.root.seen visible) joins (node.joins.filter Resolved.Join.isExplicit)

/-- Each space sees the elements of those before it. -/
def spacesTrace (visible : List FromElement) : List Space → List Resolved.Space → Prop
  | [], nodes => nodes = []
  | first :: rest, nodes =>
    ∃ node others, nodes = node :: others ∧ first.Traces visible node
      ∧ spacesTrace (node.seen visible) rest others

/-- A path of an order may stand for a result variable. -/
def sortItemsTrace (visible : List FromElement) : List SortItem → List Resolved.SortItem → Prop
  | [], nodes => nodes = []
  | .mk written collation _ :: rest, nodes =>
    ∃ value order others, nodes = .mk value collation order :: others
      ∧ ((∃ path, written = .path path) ∧ value.isVariable = true
        ∨ written.Traces false visible value)
      ∧ sortItemsTrace visible rest others

def orderTraces (visible : List FromElement) :
    Option (List SortItem) → Option (List Resolved.SortItem) → Prop
  | none, node => node = none
  | some items, node => ∃ rendered, node = some rendered ∧ sortItemsTrace visible items rendered

/-- Every path of the query is traced; the clauses see all elements of its spaces. -/
def Query.Traces (visible : List FromElement) : Query → Resolved.Select → Prop
  | .mk select spaces restriction order limit offset, node =>
    ∃ clauses distinct selections condition ordering bound skipped,
      node = .mk clauses distinct selections condition ordering bound skipped
        ∧ spacesTrace visible spaces clauses
        ∧ clauseTraces (clauses.foldl Resolved.Space.seen visible) select selections
        ∧ restrictionTraces false (clauses.foldl Resolved.Space.seen visible) restriction condition
        ∧ orderTraces (clauses.foldl Resolved.Space.seen visible) order ordering
        ∧ optionalTraces false (clauses.foldl Resolved.Space.seen visible) limit bound
        ∧ optionalTraces false (clauses.foldl Resolved.Space.seen visible) offset skipped

end

/-- Every path of the statement is traced, apart from those that a bulk statement has in its own
clauses. -/
def Statement.Traces : Statement → Resolved.Statement → Prop
  | .select query, node => ∃ select, node = .select select ∧ query.Traces [] select
  | .update _ assignments restriction, node =>
    ∃ target assigned condition, node = .update target assigned condition
      ∧ List.Forall₂ (fun written assignment : _ =>
          written.value.Traces true (target.seen []) assignment.value) assignments assigned
      ∧ restrictionTraces true (target.seen []) restriction condition
  | .delete _ restriction, node =>
    ∃ target condition, node = .delete target condition
      ∧ restrictionTraces true (target.seen []) restriction condition
  | .insert _ _ query, node =>
    ∃ target assigned select, node = .insert target assigned select ∧ query.Traces [] select

end Phrase
end EntityQuery

import EntityQuery.Proofs.Failing
import EntityQuery.Proofs.Spreading
import EntityQuery.Report.Advisory

/-!
# What advisories are about

Advisories are about three constructs: queries that are written without a select clause, calls of
functions whose meaning is left open, and functions on collections that the strict language lacks.
The first is found in the phrase, the other two in its meaning. They are counted for one code at a
time, in trees as well as in the spaces that are open while a query is read.

* `Resolved.Statement.nodes`, `Resolved.Expression.advisory?`: the expressions of a meaning at any
  depth, and the code of the advisory about one.
* `Phrase.Statement.queries`, `Phrase.Query.lacksSelect`: the queries of a phrase at any depth.
* `due`, `omitted`: how many expressions, and how many queries, an advisory with a code is about.
* `Levels.Spreads.nodes`, `Levels.Grows.due_nodes`: open spaces to which joins are added.
-/

namespace EntityQuery

namespace Resolved

mutual

/-- The expression with all that are part of it, at any depth. -/
def Expression.nodes : Expression → List Expression
  | .literal token => [.literal token]
  | .parameter parameter => [.parameter parameter]
  | .element bound => [.element bound]
  | .entityType entity => [.entityType entity]
  | .reference attained => .reference attained :: attained.nodes
  | .indexed attained => .indexed attained :: attained.nodes
  | .constant owner member type => [.constant owner member type]
  | .mapEntry function join type? => [.mapEntry function join type?]
  | .collectionFunction function argument type? =>
    .collectionFunction function argument type? :: argument.nodes
  | .call name distinct star standard arguments type? =>
    .call name distinct star standard arguments type? :: expressionNodes arguments
  | .arithmetic operator left right type? =>
    .arithmetic operator left right type? :: (left.nodes ++ right.nodes)
  | .concatenation left right => .concatenation left right :: (left.nodes ++ right.nodes)
  | .unary sign operand => .unary sign operand :: operand.nodes
  | .simpleCase operand whens otherwise type? =>
    .simpleCase operand whens otherwise type?
      :: (operand.nodes ++ simpleWhenNodes whens ++ optionalNodes otherwise)
  | .searchedCase whens otherwise type? =>
    .searchedCase whens otherwise type? :: (searchedWhenNodes whens ++ optionalNodes otherwise)
  | .subquery nested => .subquery nested :: nested.nodes
  | .selection aliasName position type? => [.selection aliasName position type?]
  | .instantiation target arguments => .instantiation target arguments :: argumentNodes arguments

def AttributeReference.nodes : AttributeReference → List Expression
  | .mk source _ _ => source.nodes

def PathSource.nodes : PathSource → List Expression
  | .element _ => []
  | .indexed attained => attained.nodes
  | .reference attained => attained.nodes

def IndexedReference.nodes : IndexedReference → List Expression
  | .mk collection index _ => collection.nodes ++ index.nodes

def expressionNodes : List Expression → List Expression
  | [] => []
  | expression :: expressions => expression.nodes ++ expressionNodes expressions

def optionalNodes : Option Expression → List Expression
  | none => []
  | some expression => expression.nodes

def SimpleWhen.nodes : SimpleWhen → List Expression
  | .mk value result => value.nodes ++ result.nodes

def simpleWhenNodes : List SimpleWhen → List Expression
  | [] => []
  | branch :: branches => branch.nodes ++ simpleWhenNodes branches

def SearchedWhen.nodes : SearchedWhen → List Expression
  | .mk condition result => condition.nodes ++ result.nodes

def searchedWhenNodes : List SearchedWhen → List Expression
  | [] => []
  | branch :: branches => branch.nodes ++ searchedWhenNodes branches

def Argument.nodes : Argument → List Expression
  | .mk expression _ => expression.nodes

def argumentNodes : List Argument → List Expression
  | [] => []
  | argument :: arguments => argument.nodes ++ argumentNodes arguments

def Predicate.nodes : Predicate → List Expression
  | .and left right => left.nodes ++ right.nodes
  | .or left right => left.nodes ++ right.nodes
  | .not inner => inner.nodes
  | .grouped inner => inner.nodes
  | .comparison _ left right => left.nodes ++ right.nodes
  | .between expression lower upper _ => expression.nodes ++ lower.nodes ++ upper.nodes
  | .like matched pattern escape _ => matched.nodes ++ pattern.nodes ++ optionalNodes escape
  | .inList expression items _ => expression.nodes ++ expressionNodes items
  | .inSubquery expression nested _ => expression.nodes ++ nested.nodes
  | .isNull expression _ => expression.nodes
  | .isEmpty collection _ => collection.nodes
  | .memberOf plural other _ => plural.nodes ++ other.nodes
  | .existence nested _ => nested.nodes

def restrictionNodes : Option Predicate → List Expression
  | none => []
  | some predicate => predicate.nodes

def Subquery.nodes : Subquery → List Expression
  | .mk select _ => select.nodes

def Selection.nodes : Selection → List Expression
  | .mk expression _ => expression.nodes

def selectionNodes : List Selection → List Expression
  | [] => []
  | selection :: selections => selection.nodes ++ selectionNodes selections

/-- A join holds expressions in its restriction. -/
def Join.nodes : Join → List Expression
  | .mk _ restriction => restrictionNodes restriction

def joinNodes : List Join → List Expression
  | [] => []
  | join :: joins => join.nodes ++ joinNodes joins

def Space.nodes : Space → List Expression
  | .mk _ joins => joinNodes joins

def spaceNodes : List Space → List Expression
  | [] => []
  | space :: spaces => space.nodes ++ spaceNodes spaces

def SortItem.nodes : SortItem → List Expression
  | .mk expression _ _ => expression.nodes

def sortNodes : List SortItem → List Expression
  | [] => []
  | item :: items => item.nodes ++ sortNodes items

def orderNodes : Option (List SortItem) → List Expression
  | none => []
  | some items => sortNodes items

/-- The expressions in the clauses of a query, at any depth. -/
def Select.nodes : Select → List Expression
  | .mk spaces _ selections restriction order limit offset =>
    spaceNodes spaces ++ selectionNodes selections ++ restrictionNodes restriction
      ++ orderNodes order ++ optionalNodes limit ++ optionalNodes offset

end

def Assignment.nodes (assignment : Assignment) : List Expression :=
  assignment.target.nodes ++ assignment.value.nodes

/-- The expressions of a statement, at any depth. -/
def Statement.nodes : Statement → List Expression
  | .select query => query.nodes
  | .update target assignments restriction =>
    target.nodes ++ assignments.flatMap Assignment.nodes ++ restrictionNodes restriction
  | .delete target restriction => target.nodes ++ restrictionNodes restriction
  | .insert target stateFields query =>
    target.nodes ++ stateFields.flatMap AttributeReference.nodes ++ query.nodes

/-- The code of the advisory about a call: its function is no standard one. -/
def callAdvisory? (standard : Bool) : Option Report.Code :=
  if standard then none else some .nonStandardFunction

/-- The code of the advisory about a function of a collection: it is neither the size of the
collection nor the index of a join. -/
def functionAdvisory? (function : CollectionFunction) : Option Report.Code :=
  if function = .size ∨ function = .index then none else some .collectionFunction

/-- The code of the advisory about an expression. -/
def Expression.advisory? : Expression → Option Report.Code
  | .call _ _ _ standard _ _ => callAdvisory? standard
  | .collectionFunction function _ _ => functionAdvisory? function
  | _ => none

/-- The functions that the strict language lacks are those that an advisory is about. -/
theorem functionAdvisory?_eq (function : CollectionFunction) :
    functionAdvisory? function
      = if function.isExtension then some .collectionFunction else none := by
  cases function <;> rfl

end Resolved

namespace Phrase

/-- The query is written without a select clause. -/
def Query.lacksSelect : Query → Bool
  | .mk select _ _ _ _ _ => select.isNone

/-- The nested query that a part is. -/
def Part.query? : Part → Option Query
  | .expression (.subquery query) => some query
  | _ => none

/-- The query of a statement that is not nested in another one. -/
def Statement.query? : Statement → Option Query
  | .select query => some query
  | .insert _ _ query => some query
  | _ => none

/-- The queries of a statement, at any depth. -/
def Statement.queries (statement : Statement) : List Query :=
  statement.query?.toList ++ statement.parts.filterMap Part.query?

/-- The code of the advisory about a query. -/
def Query.advisory? (query : Query) : Option Report.Code :=
  if query.lacksSelect then some .implicitSelect else none

/-- The code of the advisory about a part, as far as it is a nested query. -/
def Part.advisory? (part : Part) : Option Report.Code := part.query?.bind Query.advisory?

end Phrase

/-! ## Counting -/

/-- An advisory, if there is one, counts for its code. -/
def noted (code : Report.Code) (advisory? : Option Report.Code) : Nat :=
  advisory?.toList.count code

/-- How many of the expressions an advisory with the code is about. -/
def due (code : Report.Code) (nodes : List Resolved.Expression) : Nat :=
  (nodes.filterMap Resolved.Expression.advisory?).count code

/-- How many of the parts an advisory with the code is about. -/
def omitted (code : Report.Code) (parts : List Phrase.Part) : Nat :=
  (parts.filterMap Phrase.Part.advisory?).count code

section

variable {code : Report.Code}

theorem count_filterMap_cons {α : Type} (about? : α → Option Report.Code) (item : α)
    (items : List α) :
    ((item :: items).filterMap about?).count code
      = noted code (about? item) + (items.filterMap about?).count code := by
  cases h : about? item with
  | none => simp [noted, h]
  | some other => simp [noted, h, List.count_cons, Nat.add_comm]

@[simp] theorem noted_none : noted code none = 0 := rfl

@[simp] theorem due_nil : due code [] = 0 := rfl

theorem due_cons (node : Resolved.Expression) (nodes : List Resolved.Expression) :
    due code (node :: nodes) = noted code node.advisory? + due code nodes :=
  count_filterMap_cons _ _ _

@[simp] theorem due_append (nodes more : List Resolved.Expression) :
    due code (nodes ++ more) = due code nodes + due code more := by
  simp [due]

/-- An expression without an advisory does not count. -/
theorem due_cons_none {node : Resolved.Expression} (h : node.advisory? = none)
    (nodes : List Resolved.Expression) : due code (node :: nodes) = due code nodes := by
  rw [due_cons, h, noted_none, Nat.zero_add]

@[simp] theorem omitted_nil : omitted code [] = 0 := rfl

theorem omitted_cons (part : Phrase.Part) (parts : List Phrase.Part) :
    omitted code (part :: parts) = noted code part.advisory? + omitted code parts :=
  count_filterMap_cons _ _ _

@[simp] theorem omitted_append (parts more : List Phrase.Part) :
    omitted code (parts ++ more) = omitted code parts + omitted code more := by
  simp [omitted]

end

/-! ## Open spaces -/

open Resolved (joinNodes spaceNodes)

namespace Resolved

@[simp] theorem expressionNodes_append (expressions more : List Expression) :
    expressionNodes (expressions ++ more) = expressionNodes expressions ++ expressionNodes more := by
  induction expressions with
  | nil => rfl
  | cons first expressions ih => simp [expressionNodes, ih]

@[simp] theorem joinNodes_append (joins more : List Join) :
    joinNodes (joins ++ more) = joinNodes joins ++ joinNodes more := by
  induction joins with
  | nil => rfl
  | cons first joins ih => simp [joinNodes, ih]

end Resolved

namespace Interpretation

/-- Joins that paths made hold no expressions. -/
theorem Unwritten.joinNodes {joins : List Resolved.Join} (h : Unwritten joins) :
    Resolved.joinNodes joins = [] := by
  induction joins with
  | nil => rfl
  | cons first joins ih =>
    obtain ⟨⟨-, hfirst⟩, hrest⟩ := List.forall_mem_cons.mp h
    cases first with
    | mk element restriction =>
      have hnone : restriction = none := hfirst
      subst hnone
      exact ih hrest

/-- The expressions in the restrictions of the joins, at any depth. -/
def OpenSpace.nodes : OpenSpace → List Resolved.Expression
  | vacant => []
  | rooted _ joins => joinNodes joins

theorem OpenSpace.Spreads.nodes {space after : OpenSpace} (h : space.Spreads after) :
    after.nodes = space.nodes := by
  cases space with
  | vacant =>
    have hafter : after = .vacant := h
    rw [hafter]
  | rooted root joins =>
    obtain ⟨more, rfl, hmore⟩ := h
    simp [OpenSpace.nodes, hmore.joinNodes]

/-- The expressions in the spaces of a from clause. -/
def clauseNodes (spaces : List OpenSpace) : List Resolved.Expression :=
  spaces.flatMap OpenSpace.nodes

theorem ClauseSpreads.nodes {spaces after : List OpenSpace} (h : ClauseSpreads spaces after) :
    clauseNodes after = clauseNodes spaces := by
  induction h with
  | nil => rfl
  | cons hfirst _ ih =>
    simp only [clauseNodes, List.flatMap_cons] at ih ⊢
    rw [hfirst.nodes, ih]

/-- The finished spaces of a from clause hold what the open ones did. -/
theorem close_nodes {spaces : List OpenSpace} {closed : List Resolved.Space}
    (h : Levels.close spaces = .ok closed) : spaceNodes closed = clauseNodes spaces := by
  induction spaces generalizing closed with
  | nil =>
    cases h
    rfl
  | cons first spaces ih =>
    obtain ⟨root, joins, rest, rfl, hrest, rfl⟩ := Levels.close_cons h
    simp only [spaceNodes, Resolved.Space.nodes, clauseNodes, List.flatMap_cons, OpenSpace.nodes]
    rw [ih hrest]
    rfl

namespace Levels

/-- The expressions in all open spaces. -/
def nodes (levels : Levels) : List Resolved.Expression := levels.flatMap clauseNodes

theorem nodes_cons (spaces : List OpenSpace) (below : Levels) :
    nodes (spaces :: below) = clauseNodes spaces ++ nodes below := List.flatMap_cons

theorem Spreads.nodes {levels after : Levels} (h : levels.Spreads after) :
    after.nodes = levels.nodes := by
  induction h with
  | nil => rfl
  | cons hfirst _ ih => rw [nodes_cons, nodes_cons, hfirst.nodes, ih]

/-- The space that was opened last holds in addition what the new joins do. -/
theorem Grows.due_nodes {levels after : Levels} {more : List Resolved.Join}
    (h : levels.Grows more after) (code : Report.Code) :
    due code after.nodes = due code levels.nodes + due code (joinNodes more) := by
  obtain ⟨opened, opened', root, joins, below, below', rfl, rfl, hopened, hbelow⟩ := h
  have hclause : clauseNodes opened' = clauseNodes opened := hopened.nodes
  simp only [nodes_cons, clauseNodes, List.flatMap_append, List.flatMap_cons, List.flatMap_nil,
    OpenSpace.nodes, Resolved.joinNodes_append, due_append, hbelow.nodes] at hclause ⊢
  rw [hclause]
  simp only [due_nil]
  omega

end Levels
end Interpretation
end EntityQuery

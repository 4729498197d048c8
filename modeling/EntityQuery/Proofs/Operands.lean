import EntityQuery.Proofs.StrictLanguage
import EntityQuery.Proofs.WellTyped
import EntityQuery.Resolved.Leaf

/-!
# Operands

The operands of a phrase are the literals and parameters that are written in it, in the order in
which the clauses are read. A tree that renders a phrase mentions the same operands in the same
order, so that interpretation loses, doubles and moves none of them.

* `Phrase.Statement.operands`, `Resolved.Statement.operands`.
* `Phrase.Expression.Renders.operands`, …: rendering keeps the operands, form by form.
* `interpretPhrase_operands`: a meaning has the operands of its phrase.
-/

namespace EntityQuery

/-- A literal with its text, or a parameter. -/
inductive Operand where
  | literal (text : String)
  | parameter (written : Phrase.Parameter)
  deriving DecidableEq, Repr

namespace Phrase

mutual

/-- The operands of an expression from left to right. -/
def Expression.operands : Expression → List Operand
  | .literal token => [.literal token.text]
  | .parameter written => [.parameter written]
  | .path _ => []
  | .indexed _ index _ => index.operands
  | .treated _ _ _ => []
  | .mapFunction _ _ => []
  | .arithmetic _ parts => expressionOperands parts
  | .concatenation parts => expressionOperands parts
  | .unary _ operand => operand.operands
  | .grouped inner => inner.operands
  | .call _ _ _ _ arguments => expressionOperands arguments
  | .simpleCase operand whens otherwise =>
    operand.operands ++ simpleWhenOperands whens ++ optionalOperands otherwise
  | .searchedCase whens otherwise => searchedWhenOperands whens ++ optionalOperands otherwise
  | .subquery query => query.operands

def expressionOperands : List Expression → List Operand
  | [] => []
  | first :: rest => first.operands ++ expressionOperands rest

def optionalOperands : Option Expression → List Operand
  | none => []
  | some written => written.operands

def simpleWhenOperands : List SimpleWhen → List Operand
  | [] => []
  | .mk value result :: rest => value.operands ++ result.operands ++ simpleWhenOperands rest

def searchedWhenOperands : List SearchedWhen → List Operand
  | [] => []
  | .mk condition result :: rest =>
    condition.operands ++ result.operands ++ searchedWhenOperands rest

def Predicate.operands : Predicate → List Operand
  | .and left right => left.operands ++ right.operands
  | .or left right => left.operands ++ right.operands
  | .not inner => inner.operands
  | .grouped inner => inner.operands
  | .comparison _ left right => left.operands ++ right.operands
  | .between expression lower upper _ => expression.operands ++ lower.operands ++ upper.operands
  | .like expression pattern escape _ =>
    expression.operands ++ pattern.operands ++ optionalOperands escape
  | .inList expression items _ => expression.operands ++ expressionOperands items
  | .inSubquery expression subquery _ => expression.operands ++ subquery.operands
  | .isNull expression _ => expression.operands
  | .isEmpty expression _ => expression.operands
  | .memberOf element collection _ => element.operands ++ collection.operands
  | .existence expression _ => expression.operands

def restrictionOperands : Option Predicate → List Operand
  | none => []
  | some written => written.operands

def SelectExpression.operands : SelectExpression → List Operand
  | .instantiation _ items => itemOperands items
  | .object _ => []
  | .expression written => written.operands

def itemOperands : List SelectItem → List Operand
  | [] => []
  | .mk written _ :: rest => written.operands ++ itemOperands rest

def clauseOperands : Option SelectClause → List Operand
  | none => []
  | some (.mk _ items) => itemOperands items

/-- The operands of a join are those of its restriction. -/
def Join.operands : Join → List Operand
  | .cross _ => []
  | .collection _ _ => []
  | .qualified _ _ _ _ restriction => restrictionOperands restriction

def joinOperands : List Join → List Operand
  | [] => []
  | first :: rest => first.operands ++ joinOperands rest

def spaceOperands : List Space → List Operand
  | [] => []
  | .mk _ joins :: rest => joinOperands joins ++ spaceOperands rest

def sortOperands : List SortItem → List Operand
  | [] => []
  | .mk written _ _ :: rest => written.operands ++ sortOperands rest

def orderOperands : Option (List SortItem) → List Operand
  | none => []
  | some items => sortOperands items

/-- The operands of a query, clause by clause. -/
def Query.operands : Query → List Operand
  | .mk select spaces restriction order limit offset =>
    spaceOperands spaces ++ clauseOperands select ++ restrictionOperands restriction
      ++ orderOperands order ++ optionalOperands limit ++ optionalOperands offset

end

/-- The operands of a statement, clause by clause. -/
def Statement.operands : Statement → List Operand
  | .select query => query.operands
  | .update _ assignments restriction =>
    assignments.flatMap (fun assignment => assignment.value.operands)
      ++ restrictionOperands restriction
  | .delete _ restriction => restrictionOperands restriction
  | .insert _ _ query => query.operands

end Phrase

namespace Resolved

/-- Elements are no operands. -/
def Leaf.operand? : Leaf → Option Operand
  | .element _ => none
  | .literal token => some (.literal token.text)
  | .parameter written => some (.parameter written)

/-- The operands among leaves. -/
def leafOperands (leaves : List Leaf) : List Operand := leaves.filterMap Leaf.operand?

@[simp] theorem leafOperands_append (leaves more : List Leaf) :
    leafOperands (leaves ++ more) = leafOperands leaves ++ leafOperands more :=
  List.filterMap_append

@[simp] theorem leafOperands_element (element : FromElement) (leaves : List Leaf) :
    leafOperands (.element element :: leaves) = leafOperands leaves := rfl

/-- The operands that a statement mentions, in the order in which its clauses are read. -/
def Statement.operands (statement : Statement) : List Operand := leafOperands statement.leaves

mutual

/-- The operands in the source of a path are those of its indices. -/
theorem AttributeReference.leafOperands_eq : ∀ reference : AttributeReference,
    leafOperands reference.leaves
      = reference.indices.flatMap fun index => leafOperands index.leaves
  | .mk source _ _ => source.leafOperands_eq

theorem PathSource.leafOperands_eq : ∀ source : PathSource,
    leafOperands source.leaves = source.indices.flatMap fun index => leafOperands index.leaves
  | .element _ => rfl
  | .indexed attained => attained.leafOperands_eq
  | .reference attained => attained.leafOperands_eq

theorem IndexedReference.leafOperands_eq : ∀ indexed : IndexedReference,
    leafOperands indexed.leaves = indexed.indices.flatMap fun index => leafOperands index.leaves
  | .mk collection index _ => by
    simp [IndexedReference.leaves, IndexedReference.indices, collection.leafOperands_eq]

end

/-- A path without an index has no operands. -/
theorem Expression.IsPlace.leafOperands {value : Expression} (h : value.IsPlace) :
    leafOperands value.leaves = [] := by
  cases value with
  | reference attained =>
    have hindices : attained.indices = [] := h
    simp [Expression.leaves, attained.leafOperands_eq, hindices]
  | call name distinct star standard arguments type? =>
    have harguments : arguments = [] := h
    subst harguments
    rfl
  | element bound => rfl
  | entityType entity => rfl
  | constant _ _ _ => rfl
  | _ => cases h

/-- A path with one index has the operands of the index. -/
theorem Expression.leafOperands_indices {value index : Expression} (h : value.indices = [index]) :
    Resolved.leafOperands value.leaves = Resolved.leafOperands index.leaves := by
  cases value with
  | reference attained =>
    have hindices : attained.indices = [index] := h
    simp [Expression.leaves, attained.leafOperands_eq, hindices]
  | indexed attained =>
    have hindices : attained.indices = [index] := h
    simp [Expression.leaves, attained.leafOperands_eq, hindices]
  | _ => cases h

/-- Joins that were not written have no operands. -/
theorem leafOperands_explicit {joins : List Join}
    (h : ∀ join ∈ joins, join.isExplicit = false → join.restriction = none) :
    leafOperands (joinLeaves joins) = leafOperands (joinLeaves (joins.filter Join.isExplicit)) := by
  induction joins with
  | nil => rfl
  | cons first rest ih =>
    obtain ⟨hfirst, hrest⟩ := List.forall_mem_cons.mp h
    cases first with
    | mk element restriction =>
      cases hexplicit : (Join.mk element restriction).isExplicit with
      | true => simp [hexplicit, joinLeaves, ih hrest]
      | false =>
        have hnone : restriction = none := hfirst hexplicit
        subst hnone
        simp [hexplicit, joinLeaves, Join.leaves, restrictionLeaves, ih hrest]

end Resolved

/-! ## Rendered operands -/

namespace Phrase

open Resolved (leafOperands)

variable {schema : Schema} {maps : Bool}

mutual

theorem Expression.Renders.operands : ∀ (written : Expression) {node : Resolved.Expression},
    written.Renders schema maps node → leafOperands node.leaves = written.operands
  | .literal token, _, h => by
    obtain ⟨value, rfl⟩ := h
    rfl
  | .parameter written, _, h => by
    have hnode : _ = Resolved.Expression.parameter written := h
    subst hnode
    rfl
  | .path _, _, h => Resolved.Expression.IsPlace.leafOperands h
  | .indexed _ index _, _, h => by
    obtain ⟨rendered, hindices, hindex⟩ := h
    rw [Resolved.Expression.leafOperands_indices hindices]
    exact Expression.Renders.operands index hindex
  | .treated _ _ _, _, h => Resolved.Expression.IsPlace.leafOperands h
  | .mapFunction _ _, _, h => by
    rcases h with ⟨join, type?, rfl⟩ | ⟨-, -, join, rfl⟩
    · rfl
    · rfl
  | .arithmetic _ [left, right], _, h => by
    obtain ⟨first, second, type?, rfl, hleft, hright⟩ := h
    simp [Resolved.Expression.leaves, Expression.operands, expressionOperands,
      Expression.Renders.operands left hleft, Expression.Renders.operands right hright]
  | .arithmetic _ [], _, h => h.elim
  | .arithmetic _ [_], _, h => h.elim
  | .arithmetic _ (_ :: _ :: _ :: _), _, h => h.elim
  | .concatenation [left, right], _, h => by
    obtain ⟨first, second, rfl, hleft, hright⟩ := h
    simp [Resolved.Expression.leaves, Expression.operands, expressionOperands,
      Expression.Renders.operands left hleft, Expression.Renders.operands right hright]
  | .concatenation [], _, h => h.elim
  | .concatenation [_], _, h => h.elim
  | .concatenation (_ :: _ :: _ :: _), _, h => h.elim
  | .unary _ operand, _, h => by
    obtain ⟨rendered, rfl, hoperand⟩ := h
    change leafOperands rendered.leaves = operand.operands
    exact Expression.Renders.operands operand hoperand
  | .grouped inner, _, h => Expression.Renders.operands inner h
  | .call name generic _ _ arguments, _, h => by
    simp only [Expression.Renders] at h
    split at h
    · obtain ⟨argument, type?, rfl, harguments⟩ := h
      have hlist := expressionsRender.operands arguments harguments
      simpa [Resolved.expressionLeaves, Resolved.Expression.leaves, Expression.operands] using hlist
    · obtain ⟨standard, rendered, type?, rfl, harguments⟩ := h
      exact expressionsRender.operands arguments harguments
  | .simpleCase operand whens otherwise, _, h => by
    obtain ⟨rendered, branches, default, type?, rfl, hoperand, hwhens, hotherwise⟩ := h
    simp [Resolved.Expression.leaves, Expression.operands,
      Expression.Renders.operands operand hoperand, simpleWhensRender.operands whens hwhens,
      optionalRenders.operands otherwise hotherwise]
  | .searchedCase whens otherwise, _, h => by
    obtain ⟨branches, default, type?, rfl, hwhens, hotherwise⟩ := h
    simp [Resolved.Expression.leaves, Expression.operands,
      searchedWhensRender.operands whens hwhens, optionalRenders.operands otherwise hotherwise]
  | .subquery query, _, h => by
    obtain ⟨select, type?, rfl, hquery⟩ := h
    exact Query.Renders.operands query hquery

theorem expressionsRender.operands : ∀ (written : List Expression)
    {nodes : List Resolved.Expression}, expressionsRender schema maps written nodes →
      leafOperands (Resolved.expressionLeaves nodes) = expressionOperands written
  | [], _, h => by
    have hnone : _ = [] := h
    subst hnone
    rfl
  | first :: rest, _, h => by
    obtain ⟨node, others, rfl, hfirst, hrest⟩ := h
    simp [Resolved.expressionLeaves, expressionOperands, Expression.Renders.operands first hfirst,
      expressionsRender.operands rest hrest]

theorem optionalRenders.operands : ∀ (written : Option Expression)
    {node : Option Resolved.Expression}, optionalRenders schema maps written node →
      leafOperands (Resolved.optionalLeaves node) = optionalOperands written
  | none, _, h => by
    have hnone : _ = none := h
    subst hnone
    rfl
  | some written, _, h => by
    obtain ⟨rendered, rfl, hwritten⟩ := h
    exact Expression.Renders.operands written hwritten

theorem simpleWhensRender.operands : ∀ (written : List SimpleWhen)
    {nodes : List Resolved.SimpleWhen}, simpleWhensRender schema maps written nodes →
      leafOperands (Resolved.simpleWhenLeaves nodes) = simpleWhenOperands written
  | [], _, h => by
    have hnone : _ = [] := h
    subst hnone
    rfl
  | .mk value result :: rest, _, h => by
    obtain ⟨compared, found, others, rfl, hvalue, hresult, hrest⟩ := h
    simp [Resolved.simpleWhenLeaves, Resolved.SimpleWhen.leaves, simpleWhenOperands,
      Expression.Renders.operands value hvalue, Expression.Renders.operands result hresult,
      simpleWhensRender.operands rest hrest]

theorem searchedWhensRender.operands : ∀ (written : List SearchedWhen)
    {nodes : List Resolved.SearchedWhen}, searchedWhensRender schema maps written nodes →
      leafOperands (Resolved.searchedWhenLeaves nodes) = searchedWhenOperands written
  | [], _, h => by
    have hnone : _ = [] := h
    subst hnone
    rfl
  | .mk condition result :: rest, _, h => by
    obtain ⟨tested, found, others, rfl, hcondition, hresult, hrest⟩ := h
    simp [Resolved.searchedWhenLeaves, Resolved.SearchedWhen.leaves, searchedWhenOperands,
      Predicate.Renders.operands condition hcondition, Expression.Renders.operands result hresult,
      searchedWhensRender.operands rest hrest]

theorem Predicate.Renders.operands : ∀ (written : Predicate) {node : Resolved.Predicate},
    written.Renders schema maps node → leafOperands node.leaves = written.operands
  | .and left right, _, h => by
    obtain ⟨first, second, rfl, hleft, hright⟩ := h
    simp [Resolved.Predicate.leaves, Predicate.operands, Predicate.Renders.operands left hleft,
      Predicate.Renders.operands right hright]
  | .or left right, _, h => by
    obtain ⟨first, second, rfl, hleft, hright⟩ := h
    simp [Resolved.Predicate.leaves, Predicate.operands, Predicate.Renders.operands left hleft,
      Predicate.Renders.operands right hright]
  | .not inner, _, h => by
    obtain ⟨rendered, rfl, hinner⟩ := h
    change leafOperands rendered.leaves = inner.operands
    exact Predicate.Renders.operands inner hinner
  | .grouped inner, _, h => by
    obtain ⟨rendered, rfl, hinner⟩ := h
    change leafOperands rendered.leaves = inner.operands
    exact Predicate.Renders.operands inner hinner
  | .comparison _ left right, _, h => by
    obtain ⟨first, second, rfl, hleft, hright⟩ := h
    simp [Resolved.Predicate.leaves, Predicate.operands, Expression.Renders.operands left hleft,
      Expression.Renders.operands right hright]
  | .between expression lower upper _, _, h => by
    obtain ⟨tested, first, second, rfl, htested, hlower, hupper⟩ := h
    simp [Resolved.Predicate.leaves, Predicate.operands,
      Expression.Renders.operands expression htested, Expression.Renders.operands lower hlower,
      Expression.Renders.operands upper hupper]
  | .like expression pattern escape _, _, h => by
    obtain ⟨matched, shape, mark, rfl, hmatched, hpattern, hescape⟩ := h
    simp [Resolved.Predicate.leaves, Predicate.operands,
      Expression.Renders.operands expression hmatched, Expression.Renders.operands pattern hpattern,
      optionalRenders.operands escape hescape]
  | .inList expression items _, _, h => by
    obtain ⟨tested, rendered, rfl, htested, hitems⟩ := h
    simp [Resolved.Predicate.leaves, Predicate.operands,
      Expression.Renders.operands expression htested, expressionsRender.operands items hitems]
  | .inSubquery expression operand _, _, h => by
    cases operand with
    | subquery query =>
      obtain ⟨tested, select, type?, rfl, htested, hquery⟩ := h
      simp [Resolved.Predicate.leaves, Resolved.Subquery.leaves, Predicate.operands,
        Expression.operands, Expression.Renders.operands expression htested,
        Query.Renders.operands query hquery]
    | _ => exact h.elim
  | .isNull expression _, _, h => by
    obtain ⟨tested, rfl, htested⟩ := h
    exact Expression.Renders.operands expression htested
  | .isEmpty expression _, _, h => by
    obtain ⟨collection, rfl, hcollection⟩ := h
    exact Expression.Renders.operands expression hcollection
  | .memberOf element collection _, _, h => by
    obtain ⟨plural, other, rfl, helement, hcollection⟩ := h
    have hplural : leafOperands plural.leaves = element.operands :=
      Expression.Renders.operands element helement
    simp [Resolved.Predicate.leaves, Predicate.operands, hplural,
      Expression.Renders.operands collection hcollection]
  | .existence operand _, _, h => by
    cases operand with
    | subquery query =>
      obtain ⟨select, type?, rfl, hquery⟩ := h
      exact Query.Renders.operands query hquery
    | _ => exact h.elim

theorem restrictionRenders.operands : ∀ (written : Option Predicate)
    {node : Option Resolved.Predicate}, restrictionRenders schema maps written node →
      leafOperands (Resolved.restrictionLeaves node) = restrictionOperands written
  | none, _, h => by
    have hnone : _ = none := h
    subst hnone
    rfl
  | some written, _, h => by
    obtain ⟨rendered, rfl, hwritten⟩ := h
    exact Predicate.Renders.operands written hwritten

theorem SelectExpression.Renders.operands : ∀ (written : SelectExpression)
    {node : Resolved.Expression}, written.Renders schema maps node →
      leafOperands node.leaves = written.operands
  | .instantiation _ items, _, h => by
    obtain ⟨target, arguments, rfl, hitems⟩ := h
    exact argumentsRender.operands items hitems
  | .object _, _, h => by
    obtain ⟨element, rfl⟩ := h
    rfl
  | .expression written, _, h => Expression.Renders.operands written h

theorem argumentsRender.operands : ∀ (written : List SelectItem)
    {nodes : List Resolved.Argument}, argumentsRender schema maps written nodes →
      leafOperands (Resolved.argumentLeaves nodes) = itemOperands written
  | [], _, h => by
    have hnone : _ = [] := h
    subst hnone
    rfl
  | .mk written _ :: rest, _, h => by
    obtain ⟨value, others, rfl, hvalue, hrest⟩ := h
    simp [Resolved.argumentLeaves, Resolved.Argument.leaves, itemOperands,
      SelectExpression.Renders.operands written hvalue, argumentsRender.operands rest hrest]

theorem selectionsRender.operands : ∀ (written : List SelectItem)
    {nodes : List Resolved.Selection}, selectionsRender schema maps written nodes →
      leafOperands (Resolved.selectionLeaves nodes) = itemOperands written
  | [], _, h => by
    have hnone : _ = [] := h
    subst hnone
    rfl
  | .mk written _ :: rest, _, h => by
    obtain ⟨value, others, rfl, hvalue, hrest⟩ := h
    simp [Resolved.selectionLeaves, Resolved.Selection.leaves, itemOperands,
      SelectExpression.Renders.operands written hvalue, selectionsRender.operands rest hrest]

theorem clauseRenders.operands : ∀ (written : Option SelectClause) {distinct : Bool}
    {nodes : List Resolved.Selection}, clauseRenders schema maps written distinct nodes →
      leafOperands (Resolved.selectionLeaves nodes) = clauseOperands written
  | none, _, _, h => by
    obtain ⟨-, root, rfl⟩ := h
    rfl
  | some (.mk _ items), _, _, h => selectionsRender.operands items h.2

theorem Join.Renders.operands : ∀ (written : Join) {node : Resolved.Join},
    written.Renders schema maps node → leafOperands node.leaves = written.operands
  | .cross _, _, h => by
    obtain ⟨element, rfl, -⟩ := h
    rfl
  | .collection _ _, _, h => by
    obtain ⟨element, rfl, -⟩ := h
    rfl
  | .qualified _ _ _ _ predicate, _, h => by
    obtain ⟨element, restriction, rfl, -, hrestriction⟩ := h
    exact restrictionRenders.operands predicate hrestriction

theorem joinsRender.operands : ∀ (written : List Join) {nodes : List Resolved.Join},
    joinsRender schema maps written nodes →
      leafOperands (Resolved.joinLeaves nodes) = joinOperands written
  | [], _, h => by
    have hnone : _ = [] := h
    subst hnone
    rfl
  | first :: rest, _, h => by
    obtain ⟨node, others, rfl, hfirst, hrest⟩ := h
    simp [Resolved.joinLeaves, joinOperands, Join.Renders.operands first hfirst,
      joinsRender.operands rest hrest]

theorem spacesRender.operands : ∀ (written : List Space) {nested : Bool}
    {nodes : List Resolved.Space}, spacesRender schema maps nested written nodes →
      leafOperands (Resolved.spaceLeaves nodes) = spaceOperands written
  | [], _, _, h => by
    have hnone : _ = [] := h
    subst hnone
    rfl
  | .mk _ joins :: rest, _, _, h => by
    obtain ⟨node, others, rfl, ⟨element, joined, rfl, -, hjoins, hbare⟩, hrest⟩ := h
    simp [Resolved.spaceLeaves, Resolved.Space.leaves, spaceOperands,
      Resolved.leafOperands_explicit hbare, joinsRender.operands joins hjoins,
      spacesRender.operands rest hrest]

theorem sortItemsRender.operands : ∀ (written : List SortItem) {nodes : List Resolved.SortItem},
    sortItemsRender schema maps written nodes →
      leafOperands (Resolved.sortLeaves nodes) = sortOperands written
  | [], _, h => by
    have hnone : _ = [] := h
    subst hnone
    rfl
  | .mk written _ _ :: rest, _, h => by
    obtain ⟨value, order, others, rfl, hvalue, hrest⟩ := h
    have hfirst : leafOperands value.leaves = written.operands := by
      rcases hvalue with ⟨⟨path, rfl⟩, hvariable⟩ | hvalue
      · -- A result variable has no operands, and no more has the path that names it.
        cases value with
        | selection _ _ _ => rfl
        | _ => cases hvariable
      · exact Expression.Renders.operands written hvalue
    simp [Resolved.sortLeaves, Resolved.SortItem.leaves, sortOperands, hfirst,
      sortItemsRender.operands rest hrest]

theorem orderRenders.operands : ∀ (written : Option (List SortItem))
    {node : Option (List Resolved.SortItem)}, orderRenders schema maps written node →
      leafOperands (Resolved.orderLeaves node) = orderOperands written
  | none, _, h => by
    have hnone : _ = none := h
    subst hnone
    rfl
  | some items, _, h => by
    obtain ⟨rendered, rfl, hitems⟩ := h
    exact sortItemsRender.operands items hitems

theorem Query.Renders.operands : ∀ (written : Query) {nested : Bool} {node : Resolved.Select},
    written.Renders schema maps nested node → leafOperands node.leaves = written.operands
  | .mk select spaces restriction order limit offset, _, _, h => by
    obtain ⟨_, _, _, _, _, _, _, rfl, hspaces, hselect, hrestriction, horder, hlimit, hoffset⟩ := h
    simp [Resolved.Select.leaves, Query.operands, spacesRender.operands spaces hspaces,
      clauseRenders.operands select hselect, restrictionRenders.operands restriction hrestriction,
      orderRenders.operands order horder, optionalRenders.operands limit hlimit,
      optionalRenders.operands offset hoffset]

end

/-- The targets of assignments have no operands. -/
theorem assignmentsRender.operands {written : List Assignment} {nodes : List Resolved.Assignment}
    (h : assignmentsRender schema maps written nodes) :
    leafOperands (nodes.flatMap Resolved.Assignment.leaves)
      = written.flatMap fun assignment => assignment.value.operands := by
  induction written generalizing nodes with
  | nil =>
    have hnone : nodes = [] := h
    subst hnone
    rfl
  | cons first rest ih =>
    obtain ⟨target, value, others, rfl, htarget, hvalue, hrest⟩ := h
    simp [Resolved.Assignment.leaves, target.leafOperands_eq, htarget,
      Expression.Renders.operands first.value hvalue, ih hrest]

theorem fields_operands {written : List DottedName} {nodes : List Resolved.AttributeReference}
    (h : List.Forall₂ (fun _ field => Resolved.AttributeReference.indices field = []) written
      nodes) : leafOperands (nodes.flatMap Resolved.AttributeReference.leaves) = [] := by
  induction h with
  | nil => rfl
  | @cons _ field _ _ hfield _ ih => simp [field.leafOperands_eq, hfield, ih]

/-- A statement that renders a phrase has its operands. -/
theorem Statement.Renders.operands {written : Statement} {node : Resolved.Statement}
    (h : written.Renders schema maps node) : node.operands = written.operands := by
  cases written with
  | select query =>
    obtain ⟨select, rfl, hquery⟩ := h
    exact Query.Renders.operands query hquery
  | update target assignments restriction =>
    obtain ⟨element, assigned, condition, rfl, -, hassigned, hrestriction⟩ := h
    simp [Resolved.Statement.operands, Resolved.Statement.leaves, Resolved.Space.leaves,
      Resolved.joinLeaves, Statement.operands, assignmentsRender.operands hassigned,
      restrictionRenders.operands restriction hrestriction]
  | delete target restriction =>
    obtain ⟨element, condition, rfl, -, hrestriction⟩ := h
    simp [Resolved.Statement.operands, Resolved.Statement.leaves, Resolved.Space.leaves,
      Resolved.joinLeaves, Statement.operands, restrictionRenders.operands restriction hrestriction]
  | insert target fields query =>
    obtain ⟨element, assigned, select, rfl, -, hfields, hquery⟩ := h
    simp [Resolved.Statement.operands, Resolved.Statement.leaves, Resolved.Space.leaves,
      Resolved.joinLeaves, Statement.operands, fields_operands hfields,
      Query.Renders.operands query hquery]

end Phrase

open Interpretation

/-- The meaning of a phrase has the same operands in the same order, and the operands of each form
stand in the places in which they were written. -/
theorem interpretPhrase_operands {phrase : Phrase.Statement} {schema : Schema} {meaning : Meaning}
    (h : interpretPhrase phrase schema = .ok meaning) :
    meaning.statement.operands = phrase.operands
      ∧ phrase.Renders schema false meaning.statement :=
  ⟨(interpretPhrase_renders h).operands, interpretPhrase_renders h⟩

/-- Operands in the restriction of a join, an index and a selection. -/
def labelsText : String :=
  "select s.label || 'x' from Library l join l.shelves s with s.label > 'a' "
    ++ "where l.shelves['b'].label = :c"

theorem interpretPhrase_operands_labels :
    ∃ phrase meaning, Phrase.Statement.ofText labelsText = .ok phrase
      ∧ interpretPhrase phrase shelving.schema = .ok meaning
      ∧ meaning.statement.operands = phrase.operands
      ∧ phrase.Renders shelving.schema false meaning.statement := by
  have hok : (interpret labelsText shelving.schema).isOk = true := by decide +kernel
  obtain ⟨phrase, meaning, hread, hmeaning⟩ := interpret_isOk hok
  exact ⟨phrase, meaning, hread, hmeaning, interpretPhrase_operands hmeaning⟩

end EntityQuery

import EntityQuery.Proofs.Judgement
import EntityQuery.Proofs.Rebuilding
import Mathlib.Logic.Basic

/-!
# Trees built anew twice

Building a tree anew twice is building it anew once with the second choice after the first. The
types that the first pass infers survive the second one if that infers types itself or keeps the
types of the elements.

* `Expression.type?_rebuilt`: without inference, a choice that keeps types keeps all of them.
* `Select.rebuilt_rebuilt`.
-/

namespace EntityQuery.Resolved

section

variable {retypes : Bool} {visit : FromElement → FromElement}

theorem Expression.isVariable_rebuilt (node : Expression) :
    (node.rebuilt retypes visit).isVariable = node.isVariable := by
  cases node with
  | call name distinct star standard arguments type? =>
    rw [rebuilt_call]
    rfl
  | _ => cases retypes <;> rfl

/-- Only result variables get another type. -/
theorem SortItem.retyped_eq {selections : List Selection} {expression : Expression}
    {collation : Option String} {order : SortOrder} (h : expression.isVariable = false) :
    (SortItem.mk expression collation order).retyped selections
      = .mk expression collation order := by
  cases expression with
  | selection aliasName position type? => cases h
  | _ => rfl

/-- A result variable forgets the type that it had. -/
theorem SortItem.retyped_rebuilt_retyped (selections others : List Selection) (item : SortItem) :
    ((item.retyped selections).rebuilt retypes visit).retyped others
      = (item.rebuilt retypes visit).retyped others := by
  obtain ⟨expression, collation, order⟩ := item
  cases hvariable : expression.isVariable with
  | false => rw [retyped_eq hvariable]
  | true =>
    cases expression with
    | selection aliasName position type? => cases retypes <;> rfl
    | _ => cases hvariable

end

/-! ## Types that are kept -/

section

variable {visit : FromElement → FromElement}
  (hkeep : ∀ element, (visit element).type = element.type)
include hkeep

theorem Expression.type?_rebuilt :
    ∀ node : Expression, (node.rebuilt false visit).type? = node.type?
  | .element bound => congrArg some (hkeep bound)
  | .reference (.mk _ _ _) => rfl
  | .indexed (.mk _ _ _) => rfl
  | .unary _ operand => Expression.type?_rebuilt operand
  | .subquery (.mk _ _) => rfl
  | .literal _ => rfl
  | .parameter _ => rfl
  | .entityType _ => rfl
  | .constant _ _ _ => rfl
  | .mapEntry _ _ _ => rfl
  | .collectionFunction _ _ _ => rfl
  | .call _ _ _ _ _ _ => rfl
  | .arithmetic _ _ _ _ => rfl
  | .concatenation _ _ => rfl
  | .simpleCase _ _ _ _ => rfl
  | .searchedCase _ _ _ => rfl
  | .selection _ _ _ => rfl
  | .instantiation _ _ => rfl

theorem types_rebuilt (nodes : List Expression) :
    (nodes.map (Expression.rebuilt false visit)).map Expression.type?
      = nodes.map Expression.type? := by
  rw [List.map_map]
  exact List.map_congr_left fun node _ => Expression.type?_rebuilt hkeep node

theorem firstTyped_rebuilt (nodes : List Expression) :
    firstTyped (nodes.map (Expression.rebuilt false visit)) = firstTyped nodes := by
  rw [firstTyped, firstTyped, List.findSome?_map]
  exact congrArg (List.findSome? · nodes) (funext fun node => Expression.type?_rebuilt hkeep node)

theorem caseType?_rebuilt (results : List Expression) (otherwise : Option Expression) :
    caseType? (results.map (Expression.rebuilt false visit))
        (otherwise.map (Expression.rebuilt false visit))
      = caseType? results otherwise := by
  have hall : results.map (Expression.rebuilt false visit)
        ++ (otherwise.map (Expression.rebuilt false visit)).toList
      = (results ++ otherwise.toList).map (Expression.rebuilt false visit) := by
    cases otherwise <;> simp
  rw [caseType?, hall, firstTyped_rebuilt hkeep, caseType?]

theorem selectionType?_rebuilt (selections : List Selection) (position : Nat) :
    selectionType? (selections.map (Selection.rebuilt false visit)) position
      = selectionType? selections position := by
  rw [selectionType?, selectionType?, List.getElem?_map, Option.bind_map]
  refine congrArg _ (funext fun selection => ?_)
  obtain ⟨expression, alias?⟩ := selection
  exact Expression.type?_rebuilt hkeep expression

theorem Select.selectionType?_rebuilt (select : Select) (position : Nat) :
    (select.rebuilt false visit).selectionType? position = select.selectionType? position := by
  obtain ⟨spaces, distinct, selections, restriction, order, limit, offset⟩ := select
  rw [Select.rebuilt_mk]
  exact Resolved.selectionType?_rebuilt hkeep selections position

theorem SortItem.rebuilt_retyped (selections : List Selection) (item : SortItem) :
    (item.retyped selections).rebuilt false visit
      = (item.rebuilt false visit).retyped (selections.map (Selection.rebuilt false visit)) := by
  obtain ⟨expression, collation, order⟩ := item
  cases hvariable : expression.isVariable with
  | false =>
    rw [retyped_eq hvariable]
    exact (retyped_eq ((Expression.isVariable_rebuilt expression).trans hvariable)).symm
  | true =>
    cases expression with
    | selection aliasName position type? =>
      change SortItem.mk (.selection aliasName position (selectionType? selections position)) _ _
        = .mk (.selection aliasName position (selectionType? _ position)) _ _
      rw [selectionType?_rebuilt hkeep]
    | _ => cases hvariable

end

/-! ## Once more -/

section

variable {first second : Bool} {visit later : FromElement → FromElement}

/-- A type that is inferred in a first pass, kept or inferred again in the second one. -/
theorem inferred_twice {α : Type} {inferred between kept : α}
    (h : first = true → second = false → between = inferred) :
    (if second then inferred else if first then between else kept)
      = if first || second then inferred else kept := by
  cases first <;> cases second <;> simp_all

theorem simpleResults_rebuilt {retypes : Bool} (whens : List SimpleWhen) :
    (whens.map (SimpleWhen.rebuilt retypes visit)).map SimpleWhen.result
      = (whens.map SimpleWhen.result).map (Expression.rebuilt retypes visit) := by
  rw [List.map_map, List.map_map]
  refine List.map_congr_left fun branch _ => ?_
  obtain ⟨value, result⟩ := branch
  rfl

theorem searchedResults_rebuilt {retypes : Bool} (whens : List SearchedWhen) :
    (whens.map (SearchedWhen.rebuilt retypes visit)).map SearchedWhen.result
      = (whens.map SearchedWhen.result).map (Expression.rebuilt retypes visit) := by
  rw [List.map_map, List.map_map]
  refine List.map_congr_left fun branch _ => ?_
  obtain ⟨condition, result⟩ := branch
  rfl

/-- The order of a query that was built anew twice. -/
theorem order_twice (selections : List Selection) (order : Option (List SortItem))
    (hkeep : first = true → second = false → ∀ element, (later element).type = element.type) :
    (if second then
        retypedOrder ((selections.map (Selection.rebuilt first visit)).map
            (Selection.rebuilt second later))
          ((if first then retypedOrder (selections.map (Selection.rebuilt first visit)) order
            else order).map fun items => items.map (SortItem.rebuilt second later))
      else (if first then retypedOrder (selections.map (Selection.rebuilt first visit)) order
        else order).map fun items => items.map (SortItem.rebuilt second later))
      = if first || second then
          retypedOrder ((selections.map (Selection.rebuilt first visit)).map
              (Selection.rebuilt second later))
            (order.map fun items => items.map (SortItem.rebuilt second later))
        else order.map fun items => items.map (SortItem.rebuilt second later) := by
  cases order with
  | none => cases first <;> cases second <;> rfl
  | some items =>
    cases first <;> cases second
    · rfl
    · rfl
    · refine congrArg some ?_
      change List.map _ (List.map _ items) = List.map _ (List.map _ items)
      rw [List.map_map, List.map_map]
      exact List.map_congr_left fun item _ => SortItem.rebuilt_retyped (hkeep rfl rfl) _ item
    · refine congrArg some ?_
      change List.map _ (List.map _ (List.map _ items)) = List.map _ (List.map _ items)
      rw [List.map_map, List.map_map, List.map_map, List.map_map]
      exact List.map_congr_left fun item _ => SortItem.retyped_rebuilt_retyped _ _ item

-- The linter does not see that the members of a mutual block use a hypothesis through each other.
set_option linter.unusedSectionVars false

variable (hkeep : first = true → second = false → ∀ element, (later element).type = element.type)
include hkeep

mutual

theorem Expression.rebuilt_rebuilt :
    ∀ node : Expression, (node.rebuilt first visit).rebuilt second later
      = node.rebuilt (first || second) fun element => later (visit element)
  | .literal token => by
    rw [Expression.rebuilt_literal, Expression.rebuilt_literal, Expression.rebuilt_literal]
  | .parameter written => by
    rw [Expression.rebuilt_parameter, Expression.rebuilt_parameter, Expression.rebuilt_parameter]
  | .element bound => by
    rw [Expression.rebuilt_element, Expression.rebuilt_element, Expression.rebuilt_element]
  | .entityType entity => by
    rw [Expression.rebuilt_entityType, Expression.rebuilt_entityType,
      Expression.rebuilt_entityType]
  | .reference attained => by
    rw [Expression.rebuilt_reference, Expression.rebuilt_reference, Expression.rebuilt_reference,
      attained.rebuilt_rebuilt]
  | .indexed attained => by
    rw [Expression.rebuilt_indexed, Expression.rebuilt_indexed, Expression.rebuilt_indexed,
      attained.rebuilt_rebuilt]
  | .constant owner member type => by
    rw [Expression.rebuilt_constant, Expression.rebuilt_constant, Expression.rebuilt_constant]
  | .mapEntry function join type? => by
    rw [Expression.rebuilt_mapEntry, Expression.rebuilt_mapEntry, Expression.rebuilt_mapEntry]
  | .collectionFunction function argument type? => by
    rw [Expression.rebuilt_collectionFunction, Expression.rebuilt_collectionFunction,
      Expression.rebuilt_collectionFunction, argument.rebuilt_rebuilt]
  | .call name distinct star standard arguments type? => by
    have harguments := expressions_rebuilt_rebuilt arguments
    have htypes : first = true → second = false →
        ((arguments.map (Expression.rebuilt first visit)).map Expression.type?)
          = (arguments.map (Expression.rebuilt (first || second)
            fun element => later (visit element))).map Expression.type? := by
      intro hfirst hsecond
      rw [← harguments]
      subst hsecond
      exact (types_rebuilt (hkeep hfirst rfl) _).symm
    rw [Expression.rebuilt_call, Expression.rebuilt_call, Expression.rebuilt_call, harguments]
    cases standard with
    | false => simp
    | true =>
      simp only [Bool.and_true]
      rw [inferred_twice fun hfirst hsecond =>
        congrArg (Catalogue.resultType? name) (htypes hfirst hsecond)]
  | .arithmetic operator left right type? => by
    have hleft := left.rebuilt_rebuilt
    have hright := right.rebuilt_rebuilt
    rw [Expression.rebuilt_arithmetic, Expression.rebuilt_arithmetic,
      Expression.rebuilt_arithmetic, hleft, hright, inferred_twice fun hfirst hsecond => ?_]
    rw [← hleft, ← hright]
    subst hsecond
    rw [Expression.type?_rebuilt (hkeep hfirst rfl), Expression.type?_rebuilt (hkeep hfirst rfl)]
  | .concatenation left right => by
    rw [Expression.rebuilt_concatenation, Expression.rebuilt_concatenation,
      Expression.rebuilt_concatenation, left.rebuilt_rebuilt, right.rebuilt_rebuilt]
  | .unary sign operand => by
    rw [Expression.rebuilt_unary, Expression.rebuilt_unary, Expression.rebuilt_unary,
      operand.rebuilt_rebuilt]
  | .simpleCase operand whens otherwise type? => by
    have hwhens := simpleWhens_rebuilt_rebuilt whens
    have hotherwise := optional_rebuilt_rebuilt otherwise
    rw [Expression.rebuilt_simpleCase, Expression.rebuilt_simpleCase,
      Expression.rebuilt_simpleCase, operand.rebuilt_rebuilt, hwhens, hotherwise,
      inferred_twice fun hfirst hsecond => ?_]
    rw [← hwhens, ← hotherwise]
    subst hsecond
    symm
    rw [simpleResults_rebuilt, caseType?_rebuilt (hkeep hfirst rfl)]
  | .searchedCase whens otherwise type? => by
    have hwhens := searchedWhens_rebuilt_rebuilt whens
    have hotherwise := optional_rebuilt_rebuilt otherwise
    rw [Expression.rebuilt_searchedCase, Expression.rebuilt_searchedCase,
      Expression.rebuilt_searchedCase, hwhens, hotherwise,
      inferred_twice fun hfirst hsecond => ?_]
    rw [← hwhens, ← hotherwise]
    subst hsecond
    symm
    rw [searchedResults_rebuilt, caseType?_rebuilt (hkeep hfirst rfl)]
  | .subquery nested => by
    rw [Expression.rebuilt_subquery, Expression.rebuilt_subquery, Expression.rebuilt_subquery,
      nested.rebuilt_rebuilt]
  | .selection aliasName position type? => by
    rw [Expression.rebuilt_selection, Expression.rebuilt_selection, Expression.rebuilt_selection]
  | .instantiation target arguments => by
    rw [Expression.rebuilt_instantiation, Expression.rebuilt_instantiation,
      Expression.rebuilt_instantiation, arguments_rebuilt_rebuilt arguments]

theorem AttributeReference.rebuilt_rebuilt :
    ∀ node : AttributeReference, (node.rebuilt first visit).rebuilt second later
      = node.rebuilt (first || second) fun element => later (visit element)
  | .mk source declared type => congrArg (AttributeReference.mk · declared type)
    source.rebuilt_rebuilt

theorem PathSource.rebuilt_rebuilt :
    ∀ node : PathSource, (node.rebuilt first visit).rebuilt second later
      = node.rebuilt (first || second) fun element => later (visit element)
  | .element _ => rfl
  | .indexed attained => congrArg PathSource.indexed attained.rebuilt_rebuilt
  | .reference attained => congrArg PathSource.reference attained.rebuilt_rebuilt

theorem IndexedReference.rebuilt_rebuilt :
    ∀ node : IndexedReference, (node.rebuilt first visit).rebuilt second later
      = node.rebuilt (first || second) fun element => later (visit element)
  | .mk collection index type =>
    congrArg₂ (IndexedReference.mk · · type) collection.rebuilt_rebuilt index.rebuilt_rebuilt

theorem expressions_rebuilt_rebuilt :
    ∀ nodes : List Expression,
      (nodes.map (Expression.rebuilt first visit)).map (Expression.rebuilt second later)
        = nodes.map (Expression.rebuilt (first || second) fun element => later (visit element))
  | [] => rfl
  | node :: nodes =>
    congrArg₂ List.cons node.rebuilt_rebuilt (expressions_rebuilt_rebuilt nodes)

theorem optional_rebuilt_rebuilt :
    ∀ node : Option Expression,
      (node.map (Expression.rebuilt first visit)).map (Expression.rebuilt second later)
        = node.map (Expression.rebuilt (first || second) fun element => later (visit element))
  | none => rfl
  | some node => congrArg some node.rebuilt_rebuilt

theorem SimpleWhen.rebuilt_rebuilt :
    ∀ node : SimpleWhen, (node.rebuilt first visit).rebuilt second later
      = node.rebuilt (first || second) fun element => later (visit element)
  | .mk value result => congrArg₂ SimpleWhen.mk value.rebuilt_rebuilt result.rebuilt_rebuilt

theorem simpleWhens_rebuilt_rebuilt :
    ∀ nodes : List SimpleWhen,
      (nodes.map (SimpleWhen.rebuilt first visit)).map (SimpleWhen.rebuilt second later)
        = nodes.map (SimpleWhen.rebuilt (first || second) fun element => later (visit element))
  | [] => rfl
  | node :: nodes =>
    congrArg₂ List.cons node.rebuilt_rebuilt (simpleWhens_rebuilt_rebuilt nodes)

theorem SearchedWhen.rebuilt_rebuilt :
    ∀ node : SearchedWhen, (node.rebuilt first visit).rebuilt second later
      = node.rebuilt (first || second) fun element => later (visit element)
  | .mk condition result =>
    congrArg₂ SearchedWhen.mk condition.rebuilt_rebuilt result.rebuilt_rebuilt

theorem searchedWhens_rebuilt_rebuilt :
    ∀ nodes : List SearchedWhen,
      (nodes.map (SearchedWhen.rebuilt first visit)).map (SearchedWhen.rebuilt second later)
        = nodes.map (SearchedWhen.rebuilt (first || second) fun element => later (visit element))
  | [] => rfl
  | node :: nodes =>
    congrArg₂ List.cons node.rebuilt_rebuilt (searchedWhens_rebuilt_rebuilt nodes)

theorem Argument.rebuilt_rebuilt :
    ∀ node : Argument, (node.rebuilt first visit).rebuilt second later
      = node.rebuilt (first || second) fun element => later (visit element)
  | .mk expression alias? => congrArg (Argument.mk · alias?) expression.rebuilt_rebuilt

theorem arguments_rebuilt_rebuilt :
    ∀ nodes : List Argument,
      (nodes.map (Argument.rebuilt first visit)).map (Argument.rebuilt second later)
        = nodes.map (Argument.rebuilt (first || second) fun element => later (visit element))
  | [] => rfl
  | node :: nodes =>
    congrArg₂ List.cons node.rebuilt_rebuilt (arguments_rebuilt_rebuilt nodes)

theorem Predicate.rebuilt_rebuilt :
    ∀ node : Predicate, (node.rebuilt first visit).rebuilt second later
      = node.rebuilt (first || second) fun element => later (visit element)
  | .and left right => congrArg₂ Predicate.and left.rebuilt_rebuilt right.rebuilt_rebuilt
  | .or left right => congrArg₂ Predicate.or left.rebuilt_rebuilt right.rebuilt_rebuilt
  | .not inner => congrArg Predicate.not inner.rebuilt_rebuilt
  | .grouped inner => congrArg Predicate.grouped inner.rebuilt_rebuilt
  | .comparison operator left right =>
    congrArg₂ (Predicate.comparison operator) left.rebuilt_rebuilt right.rebuilt_rebuilt
  | .between expression lower upper negated => by
    rw [Predicate.rebuilt_between, Predicate.rebuilt_between, Predicate.rebuilt_between,
      expression.rebuilt_rebuilt, lower.rebuilt_rebuilt, upper.rebuilt_rebuilt]
  | .like matched pattern escape negated => by
    rw [Predicate.rebuilt_like, Predicate.rebuilt_like, Predicate.rebuilt_like,
      matched.rebuilt_rebuilt, pattern.rebuilt_rebuilt, optional_rebuilt_rebuilt escape]
  | .inList expression items negated => by
    rw [Predicate.rebuilt_inList, Predicate.rebuilt_inList, Predicate.rebuilt_inList,
      expression.rebuilt_rebuilt, expressions_rebuilt_rebuilt items]
  | .inSubquery expression nested negated =>
    congrArg₂ (Predicate.inSubquery · · negated) expression.rebuilt_rebuilt nested.rebuilt_rebuilt
  | .isNull expression negated => congrArg (Predicate.isNull · negated) expression.rebuilt_rebuilt
  | .isEmpty collection negated =>
    congrArg (Predicate.isEmpty · negated) collection.rebuilt_rebuilt
  | .memberOf plural other negated =>
    congrArg₂ (Predicate.memberOf · · negated) plural.rebuilt_rebuilt other.rebuilt_rebuilt
  | .existence nested negated => congrArg (Predicate.existence · negated) nested.rebuilt_rebuilt

theorem restriction_rebuilt_rebuilt :
    ∀ node : Option Predicate,
      (node.map (Predicate.rebuilt first visit)).map (Predicate.rebuilt second later)
        = node.map (Predicate.rebuilt (first || second) fun element => later (visit element))
  | none => rfl
  | some node => congrArg some node.rebuilt_rebuilt

theorem Subquery.rebuilt_rebuilt :
    ∀ node : Subquery, (node.rebuilt first visit).rebuilt second later
      = node.rebuilt (first || second) fun element => later (visit element)
  | .mk select type? => by
    have hselect := select.rebuilt_rebuilt
    rw [Subquery.rebuilt_mk, Subquery.rebuilt_mk, Subquery.rebuilt_mk, hselect,
      inferred_twice fun hfirst hsecond => ?_]
    rw [← hselect]
    subst hsecond
    exact (Select.selectionType?_rebuilt (hkeep hfirst rfl) _ 0).symm

theorem Selection.rebuilt_rebuilt :
    ∀ node : Selection, (node.rebuilt first visit).rebuilt second later
      = node.rebuilt (first || second) fun element => later (visit element)
  | .mk expression alias? => congrArg (Selection.mk · alias?) expression.rebuilt_rebuilt

theorem selections_rebuilt_rebuilt :
    ∀ nodes : List Selection,
      (nodes.map (Selection.rebuilt first visit)).map (Selection.rebuilt second later)
        = nodes.map (Selection.rebuilt (first || second) fun element => later (visit element))
  | [] => rfl
  | node :: nodes =>
    congrArg₂ List.cons node.rebuilt_rebuilt (selections_rebuilt_rebuilt nodes)

theorem Join.rebuilt_rebuilt :
    ∀ node : Join, (node.rebuilt first visit).rebuilt second later
      = node.rebuilt (first || second) fun element => later (visit element)
  | .mk element restriction => by
    rw [Join.rebuilt_mk, Join.rebuilt_mk, Join.rebuilt_mk, restriction_rebuilt_rebuilt restriction]

theorem joins_rebuilt_rebuilt :
    ∀ nodes : List Join, (nodes.map (Join.rebuilt first visit)).map (Join.rebuilt second later)
      = nodes.map (Join.rebuilt (first || second) fun element => later (visit element))
  | [] => rfl
  | node :: nodes => congrArg₂ List.cons node.rebuilt_rebuilt (joins_rebuilt_rebuilt nodes)

theorem Space.rebuilt_rebuilt :
    ∀ node : Space, (node.rebuilt first visit).rebuilt second later
      = node.rebuilt (first || second) fun element => later (visit element)
  | .mk root joins => by
    rw [Space.rebuilt_mk, Space.rebuilt_mk, Space.rebuilt_mk, joins_rebuilt_rebuilt joins]

theorem spaces_rebuilt_rebuilt :
    ∀ nodes : List Space, (nodes.map (Space.rebuilt first visit)).map (Space.rebuilt second later)
      = nodes.map (Space.rebuilt (first || second) fun element => later (visit element))
  | [] => rfl
  | node :: nodes => congrArg₂ List.cons node.rebuilt_rebuilt (spaces_rebuilt_rebuilt nodes)

theorem SortItem.rebuilt_rebuilt :
    ∀ node : SortItem, (node.rebuilt first visit).rebuilt second later
      = node.rebuilt (first || second) fun element => later (visit element)
  | .mk expression collation order =>
    congrArg (SortItem.mk · collation order) expression.rebuilt_rebuilt

theorem sortItems_rebuilt_rebuilt :
    ∀ nodes : List SortItem,
      (nodes.map (SortItem.rebuilt first visit)).map (SortItem.rebuilt second later)
        = nodes.map (SortItem.rebuilt (first || second) fun element => later (visit element))
  | [] => rfl
  | node :: nodes => congrArg₂ List.cons node.rebuilt_rebuilt (sortItems_rebuilt_rebuilt nodes)

theorem order_rebuilt_rebuilt :
    ∀ node : Option (List SortItem),
      ((node.map fun items => items.map (SortItem.rebuilt first visit)).map fun items =>
          items.map (SortItem.rebuilt second later))
        = node.map fun items =>
          items.map (SortItem.rebuilt (first || second) fun element => later (visit element))
  | none => rfl
  | some nodes => congrArg some (sortItems_rebuilt_rebuilt nodes)

theorem Select.rebuilt_rebuilt :
    ∀ node : Select, (node.rebuilt first visit).rebuilt second later
      = node.rebuilt (first || second) fun element => later (visit element)
  | .mk spaces distinct selections restriction order limit offset => by
    rw [Select.rebuilt_mk, Select.rebuilt_mk, Select.rebuilt_mk, order_twice _ _ hkeep,
      spaces_rebuilt_rebuilt spaces, selections_rebuilt_rebuilt selections,
      restriction_rebuilt_rebuilt restriction, order_rebuilt_rebuilt order,
      optional_rebuilt_rebuilt limit, optional_rebuilt_rebuilt offset]

end

end

end EntityQuery.Resolved

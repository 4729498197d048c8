import EntityQuery.Proofs.BuiltTree
import EntityQuery.Proofs.Matching
import EntityQuery.Proofs.RebuiltTwice

/-!
# Typed trees built anew

A tree whose types are sound is built anew from other elements, and its types are inferred again.
The new tree matches the old one: where a type is inferred from the types that it was inferred from
before, it comes out the same.

* `typedRules`: sound types, whatever is required of the elements.
* `Select.Holds.matches_rebuilt`: the trees match.
* `Select.Holds.rebuilt_id`: with its own elements, a typed tree is built anew as it is.
-/

namespace EntityQuery

namespace Resolved

/-- What is required of the types of a tree and, whatever the place, of the elements that it
mentions. -/
def typedRules (schema : Schema) (typed : FromElement → Prop) : Rules where
  element _ bound := typed bound
  reference attained := attained.Typed schema
  indexed attained := attained.Typed
  expression node := node.Typed
  predicate node := node.Typed
  subquery node := node.retyped = node
  select node := node.VariablesTyped

/-! ## Inferred types -/

theorem firstTyped_congr {nodes nodes' : List Expression} (h : typesOf nodes' = typesOf nodes) :
    firstTyped nodes' = firstTyped nodes := by
  have hfirst (nodes : List Expression) : firstTyped nodes = (typesOf nodes).findSome? id := by
    rw [typesOf, List.findSome?_map]
    rfl
  rw [hfirst, h, hfirst]

namespace Expression.Typed

theorem arithmetic {operator : ArithmeticOperator} {left right : Expression}
    {type? : Option TypeDescriptor} (h : (arithmetic operator left right type?).Typed) :
    type? = Catalogue.arithmeticType? left.type? right.type? :=
  (Expression.arithmetic.inj h.2).2.2.2.symm

theorem call {name : String} {distinct star : Bool} {arguments : List Expression}
    {type? : Option TypeDescriptor} (h : (call name distinct star true arguments type?).Typed) :
    type? = Catalogue.resultType? name (typesOf arguments) :=
  (Expression.call.inj h.2).2.2.2.2.2.symm

theorem simpleCase {operand : Expression} {whens : List SimpleWhen}
    {otherwise : Option Expression} {type? : Option TypeDescriptor}
    (h : (simpleCase operand whens otherwise type?).Typed) :
    type? = caseType? (whens.map SimpleWhen.result) otherwise :=
  (Expression.simpleCase.inj h.2).2.2.2.symm

theorem searchedCase {whens : List SearchedWhen} {otherwise : Option Expression}
    {type? : Option TypeDescriptor} (h : (searchedCase whens otherwise type?).Typed) :
    type? = caseType? (whens.map SearchedWhen.result) otherwise :=
  (Expression.searchedCase.inj h.2).2.2.symm

end Expression.Typed

theorem inferred_arithmetic {operator : ArithmeticOperator} {left right left' right' : Expression}
    {type? : Option TypeDescriptor} (h : (Expression.arithmetic operator left right type?).Typed) :
    Inferred (typesOf [left, right]) (typesOf [left', right']) type?
      (Catalogue.arithmeticType? left'.type? right'.type?) := by
  intro hsame
  obtain ⟨hleft, hright, -⟩ : left'.type? = left.type? ∧ right'.type? = right.type? ∧ True := by
    simpa [typesOf] using hsame
  rw [h.arithmetic, hleft, hright]

theorem inferred_call {name : String} {distinct star standard : Bool}
    {arguments arguments' : List Expression} {type? : Option TypeDescriptor}
    (h : (Expression.call name distinct star standard arguments type?).Typed) :
    Inferred (typesOf arguments) (typesOf arguments') type?
      (if true && standard then Catalogue.resultType? name (typesOf arguments') else type?) := by
  intro hsame
  cases standard with
  | false => rfl
  | true =>
    rw [hsame, h.call]
    rfl

theorem inferred_case {results results' : List Expression}
    {otherwise otherwise' : Option Expression} {type? : Option TypeDescriptor}
    (h : type? = caseType? results otherwise) :
    Inferred (typesOf (results ++ otherwise.toList)) (typesOf (results' ++ otherwise'.toList)) type?
      (caseType? results' otherwise') := by
  intro hsame
  rw [h, caseType?, firstTyped_congr hsame, caseType?]

/-! ## The new tree matches -/

section

variable {schema : Schema} {typed : FromElement → Prop} {visit : FromElement → FromElement}

/-- The items of an order match, result variables with the types that their query gives them. -/
theorem sortItemMatches_retyped {expression : Expression} {collation : Option String}
    {order : SortOrder} {selections selections' : List Selection}
    (hvariable : ∀ aliasName position type?, expression = .selection aliasName position type? →
      type? = selectionType? selections position)
    (h : expression.isVariable = false → expression.Matches visit (expression.rebuilt true visit)) :
    (SortItem.mk expression collation order).Matches visit selections selections'
      (((SortItem.mk expression collation order).rebuilt true visit).retyped selections') := by
  cases hkind : expression.isVariable with
  | false =>
    have hretyped : (((SortItem.mk expression collation order).rebuilt true visit).retyped
        selections') = .mk (expression.rebuilt true visit) collation order :=
      SortItem.retyped_eq ((Expression.isVariable_rebuilt expression).trans hkind)
    exact ⟨_, hretyped, .inl (h hkind)⟩
  | true =>
    cases expression with
    | selection aliasName position type? =>
      refine ⟨_, rfl, .inr ⟨_, rfl, fun hsame => ?_⟩⟩
      rw [hsame, hvariable _ _ _ rfl]
    | _ => cases hkind

mutual

theorem Expression.Holds.matches_rebuilt {scope : List FromElement} :
    ∀ {node : Expression}, node.Holds (typedRules schema typed) scope →
      node.Matches visit (node.rebuilt true visit)
  | .literal token, _ => Expression.rebuilt_literal token
  | .parameter written, _ => Expression.rebuilt_parameter written
  | .element bound, _ => Expression.rebuilt_element bound
  | .entityType entity, _ => Expression.rebuilt_entityType entity
  | .reference attained, h => ⟨_, Expression.rebuilt_reference attained, h.2.matches_rebuilt⟩
  | .indexed attained, h => ⟨_, Expression.rebuilt_indexed attained, h.2.matches_rebuilt⟩
  | .constant owner member type, _ => Expression.rebuilt_constant owner member type
  | .mapEntry function join type?, _ => Expression.rebuilt_mapEntry function join type?
  | .collectionFunction function argument type?, h =>
    ⟨_, Expression.rebuilt_collectionFunction function argument type?, h.2.matches_rebuilt⟩
  | .call name distinct star standard arguments type?, h => by
    refine ⟨_, _, Expression.rebuilt_call name distinct star standard arguments type?,
      expressionsHold.match_rebuilt h.2, inferred_call h.1, fun hstandard => ?_⟩
    rw [hstandard]
    rfl
  | .arithmetic operator left right type?, h =>
    ⟨_, _, _, Expression.rebuilt_arithmetic operator left right type?, h.2.1.matches_rebuilt,
      h.2.2.matches_rebuilt, inferred_arithmetic h.1⟩
  | .concatenation left right, h =>
    ⟨_, _, Expression.rebuilt_concatenation left right, h.2.1.matches_rebuilt,
      h.2.2.matches_rebuilt⟩
  | .unary sign operand, h => ⟨_, Expression.rebuilt_unary sign operand, h.2.matches_rebuilt⟩
  | .simpleCase operand whens otherwise type?, h =>
    ⟨_, _, _, _, Expression.rebuilt_simpleCase operand whens otherwise type?,
      h.2.1.matches_rebuilt, simpleWhensHold.match_rebuilt h.2.2.1,
      optionalHolds.matches_rebuilt h.2.2.2, inferred_case h.1.simpleCase⟩
  | .searchedCase whens otherwise type?, h =>
    ⟨_, _, _, Expression.rebuilt_searchedCase whens otherwise type?,
      searchedWhensHold.match_rebuilt h.2.1, optionalHolds.matches_rebuilt h.2.2,
      inferred_case h.1.searchedCase⟩
  | .subquery nested, h => ⟨_, Expression.rebuilt_subquery nested, h.2.matches_rebuilt⟩
  | .selection aliasName position type?, _ =>
    Expression.rebuilt_selection aliasName position type?
  | .instantiation target arguments, h =>
    ⟨_, Expression.rebuilt_instantiation target arguments, argumentsHold.match_rebuilt h.2⟩

theorem AttributeReference.Holds.matches_rebuilt {scope : List FromElement} :
    ∀ {node : AttributeReference}, node.Holds (typedRules schema typed) scope →
      node.Matches visit (node.rebuilt true visit)
  | .mk _ _ _, h => ⟨_, rfl, h.2.matches_rebuilt⟩

theorem PathSource.Holds.matches_rebuilt {scope : List FromElement} :
    ∀ {node : PathSource}, node.Holds (typedRules schema typed) scope →
      node.Matches visit (node.rebuilt true visit)
  | .element _, _ => rfl
  | .indexed _, h => ⟨_, rfl, IndexedReference.Holds.matches_rebuilt h⟩
  | .reference _, h => ⟨_, rfl, AttributeReference.Holds.matches_rebuilt h⟩

theorem IndexedReference.Holds.matches_rebuilt {scope : List FromElement} :
    ∀ {node : IndexedReference}, node.Holds (typedRules schema typed) scope →
      node.Matches visit (node.rebuilt true visit)
  | .mk _ _ _, h => ⟨_, _, rfl, h.2.1.matches_rebuilt, h.2.2.matches_rebuilt⟩

theorem expressionsHold.match_rebuilt {scope : List FromElement} :
    ∀ {nodes : List Expression}, expressionsHold (typedRules schema typed) scope nodes →
      expressionsMatch visit nodes (nodes.map (Expression.rebuilt true visit))
  | [], _ => rfl
  | _ :: _, h => ⟨_, _, rfl, h.1.matches_rebuilt, expressionsHold.match_rebuilt h.2⟩

theorem optionalHolds.matches_rebuilt {scope : List FromElement} :
    ∀ {node : Option Expression}, optionalHolds (typedRules schema typed) scope node →
      optionalMatches visit node (node.map (Expression.rebuilt true visit))
  | none, _ => rfl
  | some _, h => ⟨_, rfl, Expression.Holds.matches_rebuilt h⟩

theorem SimpleWhen.Holds.matches_rebuilt {scope : List FromElement} :
    ∀ {node : SimpleWhen}, node.Holds (typedRules schema typed) scope →
      node.Matches visit (node.rebuilt true visit)
  | .mk _ _, h => ⟨_, _, rfl, h.1.matches_rebuilt, h.2.matches_rebuilt⟩

theorem simpleWhensHold.match_rebuilt {scope : List FromElement} :
    ∀ {nodes : List SimpleWhen}, simpleWhensHold (typedRules schema typed) scope nodes →
      simpleWhensMatch visit nodes (nodes.map (SimpleWhen.rebuilt true visit))
  | [], _ => rfl
  | _ :: _, h => ⟨_, _, rfl, h.1.matches_rebuilt, simpleWhensHold.match_rebuilt h.2⟩

theorem SearchedWhen.Holds.matches_rebuilt {scope : List FromElement} :
    ∀ {node : SearchedWhen}, node.Holds (typedRules schema typed) scope →
      node.Matches visit (node.rebuilt true visit)
  | .mk _ _, h => ⟨_, _, rfl, h.1.matches_rebuilt, h.2.matches_rebuilt⟩

theorem searchedWhensHold.match_rebuilt {scope : List FromElement} :
    ∀ {nodes : List SearchedWhen}, searchedWhensHold (typedRules schema typed) scope nodes →
      searchedWhensMatch visit nodes (nodes.map (SearchedWhen.rebuilt true visit))
  | [], _ => rfl
  | _ :: _, h => ⟨_, _, rfl, h.1.matches_rebuilt, searchedWhensHold.match_rebuilt h.2⟩

theorem Argument.Holds.matches_rebuilt {scope : List FromElement} :
    ∀ {node : Argument}, node.Holds (typedRules schema typed) scope →
      node.Matches visit (node.rebuilt true visit)
  | .mk _ _, h => ⟨_, rfl, Expression.Holds.matches_rebuilt h⟩

theorem argumentsHold.match_rebuilt {scope : List FromElement} :
    ∀ {nodes : List Argument}, argumentsHold (typedRules schema typed) scope nodes →
      argumentsMatch visit nodes (nodes.map (Argument.rebuilt true visit))
  | [], _ => rfl
  | _ :: _, h => ⟨_, _, rfl, h.1.matches_rebuilt, argumentsHold.match_rebuilt h.2⟩

theorem Predicate.Holds.matches_rebuilt {scope : List FromElement} :
    ∀ {node : Predicate}, node.Holds (typedRules schema typed) scope →
      node.Matches visit (node.rebuilt true visit)
  | .and _ _, h => ⟨_, _, rfl, h.2.1.matches_rebuilt, h.2.2.matches_rebuilt⟩
  | .or _ _, h => ⟨_, _, rfl, h.2.1.matches_rebuilt, h.2.2.matches_rebuilt⟩
  | .not _, h => ⟨_, rfl, h.2.matches_rebuilt⟩
  | .grouped _, h => ⟨_, rfl, h.2.matches_rebuilt⟩
  | .comparison _ _ _, h => ⟨_, _, rfl, h.2.1.matches_rebuilt, h.2.2.matches_rebuilt⟩
  | .between _ _ _ _, h =>
    ⟨_, _, _, rfl, h.2.1.matches_rebuilt, h.2.2.1.matches_rebuilt, h.2.2.2.matches_rebuilt⟩
  | .like matched pattern escape negated, h =>
    ⟨_, _, _, Predicate.rebuilt_like matched pattern escape negated, h.2.1.matches_rebuilt,
      h.2.2.1.matches_rebuilt, optionalHolds.matches_rebuilt h.2.2.2⟩
  | .inList expression items negated, h =>
    ⟨_, _, Predicate.rebuilt_inList expression items negated, h.2.1.matches_rebuilt,
      expressionsHold.match_rebuilt h.2.2⟩
  | .inSubquery _ _ _, h => ⟨_, _, rfl, h.2.1.matches_rebuilt, h.2.2.matches_rebuilt⟩
  | .isNull _ _, h => ⟨_, rfl, h.2.matches_rebuilt⟩
  | .isEmpty _ _, h => ⟨_, rfl, h.2.matches_rebuilt⟩
  | .memberOf _ _ _, h => ⟨_, _, rfl, h.2.1.matches_rebuilt, h.2.2.matches_rebuilt⟩
  | .existence _ _, h => ⟨_, rfl, h.2.matches_rebuilt⟩

theorem restrictionHolds.matches_rebuilt {scope : List FromElement} :
    ∀ {node : Option Predicate}, restrictionHolds (typedRules schema typed) scope node →
      restrictionMatches visit node (node.map (Predicate.rebuilt true visit))
  | none, _ => rfl
  | some _, h => ⟨_, rfl, Predicate.Holds.matches_rebuilt h⟩

theorem Subquery.Holds.matches_rebuilt {scope : List FromElement} :
    ∀ {node : Subquery}, node.Holds (typedRules schema typed) scope →
      node.Matches visit (node.rebuilt true visit)
  | .mk select type?, h => by
    refine ⟨_, _, Subquery.rebuilt_mk select type?, h.2.matches_rebuilt, fun hsame => ?_⟩
    rw [if_pos rfl, hsame]
    exact (Subquery.mk.inj h.1).2

theorem Selection.Holds.matches_rebuilt {scope : List FromElement} :
    ∀ {node : Selection}, node.Holds (typedRules schema typed) scope →
      node.Matches visit (node.rebuilt true visit)
  | .mk _ _, h => ⟨_, rfl, Expression.Holds.matches_rebuilt h⟩

theorem selectionsHold.match_rebuilt {scope : List FromElement} :
    ∀ {nodes : List Selection}, selectionsHold (typedRules schema typed) scope nodes →
      selectionsMatch visit nodes (nodes.map (Selection.rebuilt true visit))
  | [], _ => rfl
  | _ :: _, h => ⟨_, _, rfl, h.1.matches_rebuilt, selectionsHold.match_rebuilt h.2⟩

theorem Join.Holds.matches_rebuilt {scope : List FromElement} :
    ∀ {node : Join}, node.Holds (typedRules schema typed) scope →
      node.Matches visit (node.rebuilt true visit)
  | .mk element restriction, h =>
    ⟨_, Join.rebuilt_mk element restriction, restrictionHolds.matches_rebuilt h.2⟩

theorem joinsHold.match_rebuilt {scope : List FromElement} :
    ∀ {nodes : List Join}, joinsHold (typedRules schema typed) scope nodes →
      joinsMatch visit nodes (nodes.map (Join.rebuilt true visit))
  | [], _ => rfl
  | _ :: _, h => ⟨_, _, rfl, h.1.matches_rebuilt, joinsHold.match_rebuilt h.2⟩

theorem Space.Holds.matches_rebuilt {scope : List FromElement} :
    ∀ {node : Space}, node.Holds (typedRules schema typed) scope →
      node.Matches visit (node.rebuilt true visit)
  | .mk root joins, h => ⟨_, Space.rebuilt_mk root joins, joinsHold.match_rebuilt h.2⟩

theorem spacesHold.match_rebuilt {scope : List FromElement} :
    ∀ {nodes : List Space}, spacesHold (typedRules schema typed) scope nodes →
      spacesMatch visit nodes (nodes.map (Space.rebuilt true visit))
  | [], _ => rfl
  | _ :: _, h => ⟨_, _, rfl, h.1.matches_rebuilt, spacesHold.match_rebuilt h.2⟩

theorem sortItemsHold.match_retyped {scope : List FromElement}
    {selections selections' : List Selection} :
    ∀ {nodes : List SortItem}, sortItemsHold (typedRules schema typed) scope nodes →
      (∀ item ∈ nodes, ∀ aliasName position type?,
        item.expression = .selection aliasName position type? →
          type? = selectionType? selections position) →
      sortItemsMatch visit nodes selections selections'
        ((nodes.map (SortItem.rebuilt true visit)).map (SortItem.retyped selections'))
  | [], _, _ => rfl
  | .mk expression collation order :: nodes, h, hvariables =>
    ⟨_, _, rfl, sortItemMatches_retyped (hvariables _ List.mem_cons_self) fun hkind =>
        Expression.Holds.matches_rebuilt (h.1.resolve_left (by simp [hkind])),
      sortItemsHold.match_retyped h.2 fun item hitem =>
        hvariables item (List.mem_cons_of_mem _ hitem)⟩

theorem orderHolds.matches_retyped {scope : List FromElement}
    {selections selections' : List Selection} :
    ∀ {node : Option (List SortItem)}, orderHolds (typedRules schema typed) scope node →
      (∀ items, node = some items → ∀ item ∈ items, ∀ aliasName position type?,
        item.expression = .selection aliasName position type? →
          type? = selectionType? selections position) →
      orderMatches visit node selections selections' (retypedOrder selections'
        (node.map fun items => items.map (SortItem.rebuilt true visit)))
  | none, _, _ => rfl
  | some _, h, hvariables => ⟨_, rfl, sortItemsHold.match_retyped h (hvariables _ rfl)⟩

/-- A query whose types are sound matches the one that is built anew from it. -/
theorem Select.Holds.matches_rebuilt {scope : List FromElement} :
    ∀ {node : Select}, node.Holds (typedRules schema typed) scope →
      node.Matches visit (node.rebuilt true visit)
  | .mk spaces distinct selections restriction order limit offset,
      ⟨htyped, hf, hs, hr, ho, hl, hp⟩ => by
    refine ⟨_, _, _, _, _, _,
      Select.rebuilt_mk spaces distinct selections restriction order limit offset,
      spacesHold.match_rebuilt hf, selectionsHold.match_rebuilt hs,
      restrictionHolds.matches_rebuilt hr, orderHolds.matches_retyped ho ?_,
      optionalHolds.matches_rebuilt hl, optionalHolds.matches_rebuilt hp⟩
    intro items hitems item hitem aliasName position type? hvariable
    obtain ⟨expression, hselection, htype⟩ :=
      htyped items hitems item hitem aliasName position type? hvariable
    have hat : selections[position]? = some (.mk expression (some aliasName)) := hselection
    rw [htype, selectionType?, hat]
    rfl

end

end

/-- With its own elements, a query whose types are sound is built anew as it is. -/
theorem Select.Holds.rebuilt_id {schema : Schema} {typed : FromElement → Prop}
    {scope : List FromElement} {node : Select} (h : node.Holds (typedRules schema typed) scope) :
    node.rebuilt true id = node :=
  Select.eq_of_matches h.matches_rebuilt

end Resolved
end EntityQuery

import EntityQuery.Proofs.RetypedTrees
import EntityQuery.Proofs.SplitChoices

/-!
# Types of trees built anew, and of parts

What a judgement says of a tree is said again of the tree that is built anew, with its types
inferred again, from elements of which enough is kept. Which judgement holds afterwards is read off
the nodes one by one. The types of a tree stay sound: what an old element declares, the new one
declares in the same way, and the new one is the same join.

So splitting keeps types sound: what was required of the types of a query holds of each of its parts.
An attribute that a polymorphic name declares is declared by every implementor in the same way.

* `Rules.Renew`: what each node has to meet anew, given what holds of the old node.
* `Select.Holds.renewed`: then the tree built anew meets its rules.
* `FromElement.Retains`: what the new elements have to keep for types to stay sound.
* `Select.Holds.rebuilt`: the types of the new tree are sound.
* `FromElement.retains_image`: what can be taken from an element can be taken from its image.
* `ImageOf.typed`: an image of a typed query is typed.
* `interpretPhrase_split_typed`: so are all parts of a query that has a meaning.
-/

namespace EntityQuery

/-- What can be taken from the first element can be taken from the second one. -/
structure FromElement.Retains (bound image : FromElement) : Prop where
  declared {name : String} {declared : Attribute} :
    bound.type.declared? name = some declared → image.type.declared? name = some declared
  join? : image.join? = bound.join?

theorem FromElement.Retains.collection? {bound image : FromElement} (h : bound.Retains image) :
    image.collection? = bound.collection? := by
  rw [FromElement.collection?, h.join?, FromElement.collection?]

namespace Resolved

/-- Every element among some leaves is as required. -/
def Keep (kept : FromElement → Prop) (leaves : List Leaf) : Prop :=
  ∀ bound, .element bound ∈ leaves → kept bound

namespace Keep

variable {kept : FromElement → Prop} {leaves others : List Leaf}

theorem left (h : Keep kept (leaves ++ others)) : Keep kept leaves :=
  fun bound hbound => h bound (List.mem_append_left _ hbound)

theorem right (h : Keep kept (leaves ++ others)) : Keep kept others :=
  fun bound hbound => h bound (List.mem_append_right _ hbound)

theorem head {bound : FromElement} (h : Keep kept (.element bound :: leaves)) : kept bound :=
  h bound List.mem_cons_self

theorem tail {leaf : Leaf} (h : Keep kept (leaf :: leaves)) : Keep kept leaves :=
  fun bound hbound => h bound (List.mem_cons_of_mem _ hbound)

end Keep

/-- Every node that is built anew from elements as required meets the second rules, given that the
old node meets the first ones throughout. -/
structure Rules.Renew (rules renewed : Rules) (kept : FromElement → Prop)
    (visit : FromElement → FromElement) : Prop where
  element {scope scope' : List FromElement} {bound : FromElement} :
    rules.element scope bound → kept bound → renewed.element scope' (visit bound)
  reference {scope : List FromElement} {node : AttributeReference} :
    node.Holds rules scope → Keep kept node.leaves → renewed.reference (node.rebuilt true visit)
  indexed {scope : List FromElement} {node : IndexedReference} :
    node.Holds rules scope → Keep kept node.leaves → renewed.indexed (node.rebuilt true visit)
  expression {scope : List FromElement} {node : Expression} :
    node.Holds rules scope → Keep kept node.leaves → renewed.expression (node.rebuilt true visit)
  predicate {scope : List FromElement} {node : Predicate} :
    node.Holds rules scope → Keep kept node.leaves → renewed.predicate (node.rebuilt true visit)
  subquery {scope : List FromElement} {node : Subquery} :
    node.Holds rules scope → Keep kept node.leaves → renewed.subquery (node.rebuilt true visit)
  select {scope : List FromElement} {node : Select} :
    node.Holds rules scope → Keep kept node.leaves → renewed.select (node.rebuilt true visit)

section

variable {schema : Schema} {typed typed' : FromElement → Prop} {visit : FromElement → FromElement}

/-! ## Nodes -/

/-- A source declares what it did. -/
theorem PathSource.declared?_rebuilt {source : PathSource} {name : String} {declared : Attribute}
    (hvisit : ∀ bound, source = .element bound → bound.Retains (visit bound))
    (h : source.type.declared? name = some declared) :
    (source.rebuilt true visit).type.declared? name = some declared := by
  cases source with
  | element bound => exact (hvisit bound rfl).declared h
  | indexed attained =>
    have htype : (PathSource.rebuilt true visit (.indexed attained)).type = attained.type :=
      attained.type_rebuilt
    rw [htype]
    exact h
  | reference attained =>
    have htype : (PathSource.rebuilt true visit (.reference attained)).type = attained.type :=
      attained.type_rebuilt
    rw [htype]
    exact h

theorem typed_mapEntry_rebuilt {function : MapFunction} {join : FromElement}
    {type? : Option TypeDescriptor} (hvisit : join.Retains (visit join))
    (h : (Expression.mapEntry function join type?).Typed) :
    ((Expression.mapEntry function join type?).rebuilt true visit).Typed := by
  obtain ⟨through, hjoin, hrest⟩ := h
  rw [Expression.rebuilt_mapEntry]
  exact ⟨through, by rw [hvisit.join?, hjoin], hrest⟩

theorem typed_collectionFunction_rebuilt {function : CollectionFunction} {argument : Expression}
    {type? : Option TypeDescriptor}
    (hvisit : ∀ bound, argument = .element bound → bound.Retains (visit bound))
    (h : (Expression.collectionFunction function argument type?).Typed) :
    ((Expression.collectionFunction function argument type?).rebuilt true visit).Typed := by
  rw [Expression.rebuilt_collectionFunction]
  rcases h with ⟨collection, rfl, hplural, htype⟩ | ⟨join, hfunction, rfl, hsome, htype⟩
  · refine .inl ⟨collection.rebuilt true visit, Expression.rebuilt_reference collection, ?_, ?_⟩
    · rw [AttributeReference.isPlural_rebuilt, hplural]
    · rw [AttributeReference.type_rebuilt, htype]
  · refine .inr ⟨visit join, hfunction, Expression.rebuilt_element join, hsome, ?_⟩
    rw [(hvisit join rfl).collection?, htype]

/-- A selection is where it was, with its variable. -/
theorem getElem?_selections_rebuilt {selections : List Selection} {position : Nat}
    {expression : Expression} {alias? : Option String}
    (h : selections[position]? = some (.mk expression alias?)) :
    (selections.map (Selection.rebuilt true visit))[position]?
      = some (.mk (expression.rebuilt true visit) alias?) := by
  rw [List.getElem?_map, h]
  rfl

/-- The result variables of an order have the types of the selections that they stand for. -/
theorem variablesTyped_rebuilt {spaces : List Space} {distinct : Bool} {selections : List Selection}
    {restriction : Option Predicate} {order : Option (List SortItem)}
    {limit offset : Option Expression}
    (h : (Select.mk spaces distinct selections restriction order limit offset).VariablesTyped) :
    ((Select.mk spaces distinct selections restriction order limit offset).rebuilt true
      visit).VariablesTyped := by
  rw [Select.rebuilt_mk, if_pos rfl]
  intro items hitems item hitem aliasName position type? hvariable
  obtain ⟨between, hbetween, rfl⟩ := Option.map_eq_some_iff.mp hitems
  obtain ⟨written, hwritten, rfl⟩ := Option.map_eq_some_iff.mp hbetween
  rw [List.map_map] at hitem
  obtain ⟨⟨expression, collation, ordering⟩, hmem, rfl⟩ := List.mem_map.mp hitem
  cases hkind : expression.isVariable with
  | false =>
    have himage : (expression.rebuilt true visit).isVariable = false :=
      (Expression.isVariable_rebuilt expression).trans hkind
    have hkept : (SortItem.retyped (selections.map (Selection.rebuilt true visit))
        ((SortItem.mk expression collation ordering).rebuilt true visit)).expression
          = expression.rebuilt true visit :=
      congrArg SortItem.expression (SortItem.retyped_eq himage)
    rw [Function.comp_apply, hkept] at hvariable
    rw [hvariable] at himage
    cases himage
  | true =>
    cases expression with
    | selection aliasName' position' type?' =>
      obtain ⟨selected, hselected, -⟩ := h written hwritten _ hmem aliasName' position' type?' rfl
      have hat : (selections.map (Selection.rebuilt true visit))[position']?
          = some (.mk (selected.rebuilt true visit) (some aliasName')) :=
        getElem?_selections_rebuilt hselected
      cases hvariable
      refine ⟨_, hat, ?_⟩
      rw [selectionType?, hat]
      rfl
    | _ => cases hkind

/-- An item of an order meets its rule with its own type or that of a result variable. -/
theorem sortItemHolds_retyped {rules : Rules} {scope : List FromElement}
    {selections : List Selection} {expression : Expression} {collation : Option String}
    {order : SortOrder}
    (h : expression.isVariable = true ∨ (expression.rebuilt true visit).Holds rules scope) :
    (((SortItem.mk expression collation order).rebuilt true visit).retyped selections).Holds rules
      scope := by
  cases hkind : expression.isVariable with
  | false =>
    have hretyped : (((SortItem.mk expression collation order).rebuilt true visit).retyped
        selections) = .mk (expression.rebuilt true visit) collation order :=
      SortItem.retyped_eq ((Expression.isVariable_rebuilt expression).trans hkind)
    rw [hretyped]
    exact .inr (h.resolve_left (by simp [hkind]))
  | true =>
    cases expression with
    | selection aliasName position type? => exact .inl rfl
    | _ => cases hkind

end

/-! ## Trees -/

section

-- The linter does not see that the members of a mutual block use a hypothesis through each other.
set_option linter.unusedSectionVars false

variable {rules renewed : Rules} {kept : FromElement → Prop} {visit : FromElement → FromElement}
  (hrules : rules.Renew renewed kept visit)
include hrules

mutual

theorem Expression.Holds.renewed {scope scope' : List FromElement} :
    ∀ {node : Expression}, node.Holds rules scope → Keep kept node.leaves →
      (node.rebuilt true visit).Holds renewed scope'
  | .literal token, h, hkeep => by
    have hnode := hrules.expression h hkeep
    rw [Expression.rebuilt_literal] at hnode ⊢
    exact hnode
  | .parameter written, h, hkeep => by
    have hnode := hrules.expression h hkeep
    rw [Expression.rebuilt_parameter] at hnode ⊢
    exact hnode
  | .element bound, h, hkeep => by
    have hnode := hrules.expression h hkeep
    rw [Expression.rebuilt_element] at hnode ⊢
    exact ⟨hnode, hrules.element h.2 hkeep.head⟩
  | .entityType entity, h, hkeep => by
    have hnode := hrules.expression h hkeep
    rw [Expression.rebuilt_entityType] at hnode ⊢
    exact hnode
  | .reference attained, h, hkeep => by
    have hnode := hrules.expression h hkeep
    rw [Expression.rebuilt_reference] at hnode ⊢
    exact ⟨hnode, h.2.renewed hkeep⟩
  | .indexed attained, h, hkeep => by
    have hnode := hrules.expression h hkeep
    rw [Expression.rebuilt_indexed] at hnode ⊢
    exact ⟨hnode, h.2.renewed hkeep⟩
  | .constant owner member type, h, hkeep => by
    have hnode := hrules.expression h hkeep
    rw [Expression.rebuilt_constant] at hnode ⊢
    exact hnode
  | .mapEntry function join type?, h, hkeep => by
    have hnode := hrules.expression h hkeep
    rw [Expression.rebuilt_mapEntry] at hnode ⊢
    exact ⟨hnode, hrules.element h.2 hkeep.head⟩
  | .collectionFunction function argument type?, h, hkeep => by
    have hnode := hrules.expression h hkeep
    rw [Expression.rebuilt_collectionFunction] at hnode ⊢
    exact ⟨hnode, h.2.renewed hkeep⟩
  | .call name distinct star standard arguments type?, h, hkeep => by
    have hnode := hrules.expression h hkeep
    rw [Expression.rebuilt_call] at hnode ⊢
    exact ⟨hnode, expressionsHold.renewed h.2 hkeep⟩
  | .arithmetic operator left right type?, h, hkeep => by
    have hnode := hrules.expression h hkeep
    rw [Expression.rebuilt_arithmetic] at hnode ⊢
    exact ⟨hnode, h.2.1.renewed hkeep.left, h.2.2.renewed hkeep.right⟩
  | .concatenation left right, h, hkeep => by
    have hnode := hrules.expression h hkeep
    rw [Expression.rebuilt_concatenation] at hnode ⊢
    exact ⟨hnode, h.2.1.renewed hkeep.left, h.2.2.renewed hkeep.right⟩
  | .unary sign operand, h, hkeep => by
    have hnode := hrules.expression h hkeep
    rw [Expression.rebuilt_unary] at hnode ⊢
    exact ⟨hnode, h.2.renewed hkeep⟩
  | .simpleCase operand whens otherwise type?, h, hkeep => by
    have hnode := hrules.expression h hkeep
    rw [Expression.rebuilt_simpleCase] at hnode ⊢
    exact ⟨hnode, h.2.1.renewed hkeep.left.left,
      simpleWhensHold.renewed h.2.2.1 hkeep.left.right, optionalHolds.renewed h.2.2.2 hkeep.right⟩
  | .searchedCase whens otherwise type?, h, hkeep => by
    have hnode := hrules.expression h hkeep
    rw [Expression.rebuilt_searchedCase] at hnode ⊢
    exact ⟨hnode, searchedWhensHold.renewed h.2.1 hkeep.left,
      optionalHolds.renewed h.2.2 hkeep.right⟩
  | .subquery nested, h, hkeep => by
    have hnode := hrules.expression h hkeep
    rw [Expression.rebuilt_subquery] at hnode ⊢
    exact ⟨hnode, h.2.renewed hkeep⟩
  | .selection aliasName position type?, h, hkeep => by
    have hnode := hrules.expression h hkeep
    rw [Expression.rebuilt_selection] at hnode ⊢
    exact hnode
  | .instantiation target arguments, h, hkeep => by
    have hnode := hrules.expression h hkeep
    rw [Expression.rebuilt_instantiation] at hnode ⊢
    exact ⟨hnode, argumentsHold.renewed h.2 hkeep⟩

theorem AttributeReference.Holds.renewed {scope scope' : List FromElement} :
    ∀ {node : AttributeReference}, node.Holds rules scope → Keep kept node.leaves →
      (node.rebuilt true visit).Holds renewed scope'
  | .mk _ _ _, h, hkeep => ⟨hrules.reference h hkeep, h.2.renewed hkeep⟩

theorem PathSource.Holds.renewed {scope scope' : List FromElement} :
    ∀ {node : PathSource}, node.Holds rules scope → Keep kept node.leaves →
      (node.rebuilt true visit).Holds renewed scope'
  | .element _, h, hkeep => hrules.element h hkeep.head
  | .indexed _, h, hkeep => IndexedReference.Holds.renewed h hkeep
  | .reference _, h, hkeep => AttributeReference.Holds.renewed h hkeep

theorem IndexedReference.Holds.renewed {scope scope' : List FromElement} :
    ∀ {node : IndexedReference}, node.Holds rules scope → Keep kept node.leaves →
      (node.rebuilt true visit).Holds renewed scope'
  | .mk _ _ _, h, hkeep =>
    ⟨hrules.indexed h hkeep, h.2.1.renewed hkeep.left, h.2.2.renewed hkeep.right⟩

theorem expressionsHold.renewed {scope scope' : List FromElement} :
    ∀ {nodes : List Expression}, expressionsHold rules scope nodes →
      Keep kept (expressionLeaves nodes) →
        expressionsHold renewed scope'
          (nodes.map (Expression.rebuilt true visit))
  | [], _, _ => trivial
  | _ :: _, ⟨h, hs⟩, hkeep => ⟨h.renewed hkeep.left, expressionsHold.renewed hs hkeep.right⟩

theorem optionalHolds.renewed {scope scope' : List FromElement} :
    ∀ {node : Option Expression}, optionalHolds rules scope node →
      Keep kept (optionalLeaves node) →
        optionalHolds renewed scope' (node.map (Expression.rebuilt true visit))
  | none, _, _ => trivial
  | some _, h, hkeep => Expression.Holds.renewed h hkeep

theorem SimpleWhen.Holds.renewed {scope scope' : List FromElement} :
    ∀ {node : SimpleWhen}, node.Holds rules scope → Keep kept node.leaves →
      (node.rebuilt true visit).Holds renewed scope'
  | .mk _ _, ⟨hv, hr⟩, hkeep => ⟨hv.renewed hkeep.left, hr.renewed hkeep.right⟩

theorem simpleWhensHold.renewed {scope scope' : List FromElement} :
    ∀ {nodes : List SimpleWhen}, simpleWhensHold rules scope nodes →
      Keep kept (simpleWhenLeaves nodes) →
        simpleWhensHold renewed scope'
          (nodes.map (SimpleWhen.rebuilt true visit))
  | [], _, _ => trivial
  | _ :: _, ⟨h, hs⟩, hkeep => ⟨h.renewed hkeep.left, simpleWhensHold.renewed hs hkeep.right⟩

theorem SearchedWhen.Holds.renewed {scope scope' : List FromElement} :
    ∀ {node : SearchedWhen}, node.Holds rules scope → Keep kept node.leaves →
      (node.rebuilt true visit).Holds renewed scope'
  | .mk _ _, ⟨hc, hr⟩, hkeep => ⟨hc.renewed hkeep.left, hr.renewed hkeep.right⟩

theorem searchedWhensHold.renewed {scope scope' : List FromElement} :
    ∀ {nodes : List SearchedWhen}, searchedWhensHold rules scope nodes →
      Keep kept (searchedWhenLeaves nodes) →
        searchedWhensHold renewed scope'
          (nodes.map (SearchedWhen.rebuilt true visit))
  | [], _, _ => trivial
  | _ :: _, ⟨h, hs⟩, hkeep => ⟨h.renewed hkeep.left, searchedWhensHold.renewed hs hkeep.right⟩

theorem Argument.Holds.renewed {scope scope' : List FromElement} :
    ∀ {node : Argument}, node.Holds rules scope → Keep kept node.leaves →
      (node.rebuilt true visit).Holds renewed scope'
  | .mk _ _, h, hkeep => Expression.Holds.renewed h hkeep

theorem argumentsHold.renewed {scope scope' : List FromElement} :
    ∀ {nodes : List Argument}, argumentsHold rules scope nodes →
      Keep kept (argumentLeaves nodes) →
        argumentsHold renewed scope' (nodes.map (Argument.rebuilt true visit))
  | [], _, _ => trivial
  | _ :: _, ⟨h, hs⟩, hkeep => ⟨h.renewed hkeep.left, argumentsHold.renewed hs hkeep.right⟩

theorem Predicate.Holds.renewed {scope scope' : List FromElement} :
    ∀ {node : Predicate}, node.Holds rules scope → Keep kept node.leaves →
      (node.rebuilt true visit).Holds renewed scope'
  | .and _ _, h, hkeep =>
    ⟨hrules.predicate h hkeep, h.2.1.renewed hkeep.left, h.2.2.renewed hkeep.right⟩
  | .or _ _, h, hkeep =>
    ⟨hrules.predicate h hkeep, h.2.1.renewed hkeep.left, h.2.2.renewed hkeep.right⟩
  | .not _, h, hkeep => ⟨hrules.predicate h hkeep, h.2.renewed hkeep⟩
  | .grouped _, h, hkeep => ⟨hrules.predicate h hkeep, h.2.renewed hkeep⟩
  | .comparison _ _ _, h, hkeep =>
    ⟨hrules.predicate h hkeep, h.2.1.renewed hkeep.left, h.2.2.renewed hkeep.right⟩
  | .between _ _ _ _, h, hkeep =>
    ⟨hrules.predicate h hkeep, h.2.1.renewed hkeep.left.left, h.2.2.1.renewed hkeep.left.right,
      h.2.2.2.renewed hkeep.right⟩
  | .like matched pattern escape negated, h, hkeep => by
    have hnode := hrules.predicate h hkeep
    rw [Predicate.rebuilt_like] at hnode ⊢
    exact ⟨hnode, h.2.1.renewed hkeep.left.left, h.2.2.1.renewed hkeep.left.right,
      optionalHolds.renewed h.2.2.2 hkeep.right⟩
  | .inList expression items negated, h, hkeep => by
    have hnode := hrules.predicate h hkeep
    rw [Predicate.rebuilt_inList] at hnode ⊢
    exact ⟨hnode, h.2.1.renewed hkeep.left, expressionsHold.renewed h.2.2 hkeep.right⟩
  | .inSubquery _ _ _, h, hkeep =>
    ⟨hrules.predicate h hkeep, h.2.1.renewed hkeep.left, h.2.2.renewed hkeep.right⟩
  | .isNull _ _, h, hkeep => ⟨hrules.predicate h hkeep, h.2.renewed hkeep⟩
  | .isEmpty _ _, h, hkeep => ⟨hrules.predicate h hkeep, h.2.renewed hkeep⟩
  | .memberOf _ _ _, h, hkeep =>
    ⟨hrules.predicate h hkeep, h.2.1.renewed hkeep.left, h.2.2.renewed hkeep.right⟩
  | .existence _ _, h, hkeep => ⟨hrules.predicate h hkeep, h.2.renewed hkeep⟩

theorem restrictionHolds.renewed {scope scope' : List FromElement} :
    ∀ {node : Option Predicate}, restrictionHolds rules scope node →
      Keep kept (restrictionLeaves node) →
        restrictionHolds renewed scope' (node.map (Predicate.rebuilt true visit))
  | none, _, _ => trivial
  | some _, h, hkeep => Predicate.Holds.renewed h hkeep

theorem Subquery.Holds.renewed {scope scope' : List FromElement} :
    ∀ {node : Subquery}, node.Holds rules scope → Keep kept node.leaves →
      (node.rebuilt true visit).Holds renewed scope'
  | .mk select type?, h, hkeep => by
    have hnode := hrules.subquery h hkeep
    rw [Subquery.rebuilt_mk] at hnode ⊢
    exact ⟨hnode, h.2.renewed hkeep⟩

theorem Selection.Holds.renewed {scope scope' : List FromElement} :
    ∀ {node : Selection}, node.Holds rules scope → Keep kept node.leaves →
      (node.rebuilt true visit).Holds renewed scope'
  | .mk _ _, h, hkeep => Expression.Holds.renewed h hkeep

theorem selectionsHold.renewed {scope scope' : List FromElement} :
    ∀ {nodes : List Selection}, selectionsHold rules scope nodes →
      Keep kept (selectionLeaves nodes) →
        selectionsHold renewed scope' (nodes.map (Selection.rebuilt true visit))
  | [], _, _ => trivial
  | _ :: _, ⟨h, hs⟩, hkeep => ⟨h.renewed hkeep.left, selectionsHold.renewed hs hkeep.right⟩

theorem Join.Holds.renewed {scope scope' : List FromElement} :
    ∀ {node : Join}, node.Holds rules scope → Keep kept node.leaves →
      (node.rebuilt true visit).Holds renewed scope'
  | .mk element restriction, ⟨h, hr⟩, hkeep => by
    rw [Join.rebuilt_mk]
    exact ⟨hrules.element h hkeep.head, restrictionHolds.renewed hr hkeep.tail⟩

theorem joinsHold.renewed {scope scope' : List FromElement} :
    ∀ {nodes : List Join}, joinsHold rules scope nodes →
      Keep kept (joinLeaves nodes) →
        joinsHold renewed scope' (nodes.map (Join.rebuilt true visit))
  | [], _, _ => trivial
  | _ :: _, ⟨h, hs⟩, hkeep => ⟨h.renewed hkeep.left, joinsHold.renewed hs hkeep.right⟩

theorem Space.Holds.renewed {scope scope' : List FromElement} :
    ∀ {node : Space}, node.Holds rules scope → Keep kept node.leaves →
      (node.rebuilt true visit).Holds renewed scope'
  | .mk root joins, ⟨h, hj⟩, hkeep => by
    rw [Space.rebuilt_mk]
    exact ⟨hrules.element h hkeep.head, joinsHold.renewed hj hkeep.tail⟩

theorem spacesHold.renewed {scope scope' : List FromElement} :
    ∀ {nodes : List Space}, spacesHold rules scope nodes →
      Keep kept (spaceLeaves nodes) →
        spacesHold renewed scope' (nodes.map (Space.rebuilt true visit))
  | [], _, _ => trivial
  | _ :: _, ⟨h, hs⟩, hkeep => ⟨h.renewed hkeep.left, spacesHold.renewed hs hkeep.right⟩

theorem sortItemsHold.renewed {scope scope' : List FromElement} {selections : List Selection} :
    ∀ {nodes : List SortItem}, sortItemsHold rules scope nodes →
      Keep kept (sortLeaves nodes) →
        sortItemsHold renewed scope'
          ((nodes.map (SortItem.rebuilt true visit)).map (SortItem.retyped selections))
  | [], _, _ => trivial
  | .mk _ _ _ :: _, ⟨h, hs⟩, hkeep =>
    ⟨sortItemHolds_retyped (h.imp id fun h => Expression.Holds.renewed h hkeep.left),
      sortItemsHold.renewed hs hkeep.right⟩

theorem orderHolds.renewed {scope scope' : List FromElement} {selections : List Selection} :
    ∀ {node : Option (List SortItem)}, orderHolds rules scope node →
      Keep kept (orderLeaves node) →
        orderHolds renewed scope' (retypedOrder selections
          (node.map fun items => items.map (SortItem.rebuilt true visit)))
  | none, _, _ => trivial
  | some _, h, hkeep => sortItemsHold.renewed h hkeep

/-- A query that is built anew meets the second rules throughout. -/
theorem Select.Holds.renewed {scope scope' : List FromElement} :
    ∀ {node : Select}, node.Holds rules scope → Keep kept node.leaves →
      (node.rebuilt true visit).Holds renewed scope'
  | .mk spaces distinct selections restriction order limit offset, h, hkeep => by
    have hnode := hrules.select h hkeep
    obtain ⟨-, hf, hs, hr, ho, hl, hp⟩ := h
    rw [Select.rebuilt_mk, if_pos rfl] at hnode ⊢
    exact ⟨hnode, spacesHold.renewed hf hkeep.left.left.left.left.left,
      selectionsHold.renewed hs hkeep.left.left.left.left.right,
      restrictionHolds.renewed hr hkeep.left.left.left.right,
      orderHolds.renewed ho hkeep.left.left.right,
      optionalHolds.renewed hl hkeep.left.right, optionalHolds.renewed hp hkeep.right⟩

end

end

/-! ## Types -/

section

variable {schema : Schema} {typed typed' : FromElement → Prop} {visit : FromElement → FromElement}

/-- The type of an expression that is built anew follows from its new children. -/
theorem typed_rebuilt {scope : List FromElement} {node : Expression}
    (h : node.Holds (typedRules schema typed) scope)
    (hkeep : Keep (fun bound => bound.Retains (visit bound) ∧ typed' (visit bound)) node.leaves) :
    (node.rebuilt true visit).Typed := by
  cases node with
  | mapEntry function join type? => exact typed_mapEntry_rebuilt hkeep.head.1 h.1
  | collectionFunction function argument type? =>
    refine typed_collectionFunction_rebuilt ?_ h.1
    rintro bound rfl
    exact hkeep.head.1
  | call name distinct star standard arguments type? =>
    rw [Expression.rebuilt_call]
    cases standard with
    | false => exact ⟨rfl, rfl⟩
    | true => exact ⟨rfl, rfl⟩
  | selection aliasName position type? => exact h
  | _ => exact ⟨rfl, rfl⟩

/-- Where the new elements keep what can be taken from the old ones, types stay sound. -/
theorem typedRules_renew : (typedRules schema typed).Renew (typedRules schema typed')
    (fun bound => bound.Retains (visit bound) ∧ typed' (visit bound)) visit where
  element _ hkept := hkept.2
  reference {_ node} h hkeep := by
    obtain ⟨source, declared, type⟩ := node
    obtain ⟨⟨hdeclared, hresolved⟩, -⟩ := h
    refine ⟨PathSource.declared?_rebuilt ?_ hdeclared, hresolved⟩
    rintro bound rfl
    exact hkeep.head.1
  indexed {_ node} h _ := by
    obtain ⟨collection, index, type⟩ := node
    obtain ⟨⟨hindex, helement⟩, -⟩ := h
    have htype : (collection.rebuilt true visit).type = collection.type := collection.type_rebuilt
    exact ⟨(congrArg (fun type : TypeDescriptor => type.index?.isSome) htype).trans hindex,
      (congrArg TypeDescriptor.element? htype).trans helement⟩
  expression := typed_rebuilt
  predicate {_ node} h _ := by
    cases node with
    | isEmpty collection negated => exact (collection.isPlural_rebuilt).trans h.1
    | memberOf plural other negated => exact (plural.isPlural_rebuilt).trans h.1
    | like matched pattern escape negated =>
      rw [Predicate.rebuilt_like]
      trivial
    | inList expression items negated =>
      rw [Predicate.rebuilt_inList]
      trivial
    | _ => trivial
  subquery {_ node} _ _ := by
    obtain ⟨select, type?⟩ := node
    rw [Subquery.rebuilt_mk]
    rfl
  select {_ node} h _ := by
    obtain ⟨spaces, distinct, selections, restriction, order, limit, offset⟩ := node
    exact variablesTyped_rebuilt h.1

/-- The types of a query that is built anew are sound. -/
theorem Select.Holds.rebuilt {scope scope' : List FromElement} {node : Select}
    (h : node.Holds (typedRules schema typed) scope)
    (hkeep : Keep (fun bound => bound.Retains (visit bound) ∧ typed' (visit bound)) node.leaves) :
    (node.rebuilt true visit).Holds (typedRules schema typed') scope' :=
  h.renewed typedRules_renew hkeep

end

end Resolved

/-! ## Parts of a query -/

open Interpretation Resolved Splitting

variable {query image : Query} {entities : List Entity} {number : Nat → Nat}

namespace Splitting.Query

theorem covered (hnumbered : query.Numbered)
    (hentities : entities ∈ rootChoices query.polymorphicRoots) {element : FromElement}
    (helement : element ∈ query.select.elements) : element.Covered (query.chosen entities) := by
  rcases chosen_cases hnumbered hentities helement with
    ⟨polymorphic, -, htype, entity, hentity, hchosen⟩ | ⟨-, hnone⟩
  · intro other hother
    cases hchosen.symm.trans hother
    exact ⟨polymorphic, htype, hentity⟩
  · exact FromElement.covered_of_none hnone

end Splitting.Query

theorem FromElement.retains_image {choice : Choice} {element : FromElement}
    (hcovered : element.Covered choice) : element.Retains (element.image choice number) where
  declared hdeclared := by
    rw [type_image, ← type_rebound]
    exact hcovered.declared? hdeclared
  join? := image_join?

namespace Splitting.ImageOf

variable (hnumbered : query.Numbered) (hentities : entities ∈ rootChoices query.polymorphicRoots)
  (hroots : ∀ root ∈ query.select.roots, root.isRoot = true)
  (h : ImageOf query (query.chosen entities) number image)
include hnumbered hentities hroots h

/-- The image of a join leads through the same attribute, which the image of its source declares,
and ranges over the same values. -/
theorem joinTyped {schema : Schema} {element : FromElement}
    (helement : element ∈ query.select.elements)
    (htyped : element.JoinTyped schema query.narrowings) :
    (element.image (query.chosen entities) number).JoinTyped schema image.narrowings := by
  cases element with
  | attributeJoin binding source join =>
    obtain ⟨hdeclared, hresolved, hbasic, narrowed?, htype, hmark, himplicit⟩ := htyped
    have hsource : source ∈ query.select.elements :=
      elements_closed helement (List.mem_cons_of_mem _ source.mem_chain_self)
    have hkept : query.chosen entities binding.uid = none := by
      rcases Query.chosen_cases hnumbered hentities helement with ⟨_, hroot, -⟩ | ⟨-, hnone⟩
      · cases hroots _ hroot
      · exact hnone
    have hretains : source.Retains (source.image (query.chosen entities) number) :=
      FromElement.retains_image (Query.covered hnumbered hentities hsource)
    refine ⟨hretains.declared hdeclared, hresolved, hbasic, narrowed?, ?_, fun target htarget => ?_,
      himplicit⟩
    · have himage : (FromElement.image (query.chosen entities) number
          (.attributeJoin binding source join)).type = binding.type :=
        FromElement.type_image_of_none hkept
      exact himage.trans htype
    · have huid : binding.uid ∈ query.numbers := Query.mem_numbers.mpr ⟨_, helement, rfl⟩
      have hmarks : image.narrowings.of (number binding.uid) = query.narrowings.of binding.uid :=
        h.marks _ huid
      exact hmarks ▸ hmark target htarget
  | root binding => trivial
  | crossJoin binding => trivial
  | entityJoin binding joinType => trivial
  | treated binding wrapped => trivial

/-- An image of a typed query is typed. -/
theorem typed {schema : Schema}
    (htyped : query.select.Holds (typingRules schema query.narrowings) []) :
    image.select.Holds (typingRules schema image.narrowings) [] := by
  have hjoins : ∀ element ∈ query.select.elements,
      element.JoinTyped schema query.narrowings := by
    intro element helement
    obtain ⟨bound, hbound, hpart⟩ := exists_leaf_of_mem helement
    obtain ⟨_, -, hrule⟩ := htyped.mentioned bound hbound
    exact hrule element hpart
  have htree : query.select.Holds (typedRules schema fun bound =>
      ∀ part ∈ bound.chain, part.JoinTyped schema query.narrowings) [] := htyped
  rw [h.select]
  refine htree.rebuilt fun bound hbound => ?_
  have hmem : bound ∈ query.select.elements := mem_elements_of_leaf hbound
  refine ⟨FromElement.retains_image (Query.covered hnumbered hentities hmem), fun part hpart => ?_⟩
  obtain ⟨original, horiginal, rfl⟩ := List.mem_map.mp (FromElement.chain_image ▸ hpart)
  have hin : original ∈ query.select.elements := elements_closed hmem horiginal
  exact h.joinTyped hnumbered hentities hroots hin (hjoins original hin)

end Splitting.ImageOf

/-- When a query that has a meaning is split, the types of every part are as sound as those of the
query. Every attribute is declared by the type of what it is taken from in the part, with the
descriptor that is kept, and every node has the type that follows from its children in the part. -/
theorem interpretPhrase_split_typed {written : Phrase.Query} {schema : Schema} {meaning : Meaning}
    {select : Select} (h : interpretPhrase (.select written) schema = .ok meaning)
    (hselect : meaning.statement = .select select) :
    ∀ part ∈ Query.split ⟨select, meaning.narrowings⟩,
      part.select.Holds (typingRules schema part.narrowings) [] := by
  intro part hpart
  obtain ⟨entities, hentities, number, himage⟩ := interpretPhrase_parts h hselect part hpart
  exact himage.typed (interpretPhrase_splittable h hselect).numbered hentities
    (interpretPhrase_isRoot h hselect) (interpretPhrase_holds_typing h hselect)

/-- Pairs of animals, with types that follow from the animals in a case, in a subquery and in an
order. -/
def winnersText : String :=
  "select case when a.name > b.name then a else b end as winner, "
    ++ "(select a from Cat c where c.name = b.name) from Animal a, Animal b order by winner"

/-- Each of the four parts of a query over two roots is typed. -/
theorem interpretPhrase_split_typed_winners :
    ∃ written meaning select, Phrase.Statement.ofText winnersText = .ok (.select written)
      ∧ interpretPhrase (.select written) kennel.schema = .ok meaning
      ∧ meaning.statement = .select select
      ∧ (Query.split ⟨select, meaning.narrowings⟩).length = 4
      ∧ ∀ part ∈ Query.split ⟨select, meaning.narrowings⟩,
        part.select.Holds (typingRules kennel.schema part.narrowings) [] := by
  have hpasses : selectPasses winnersText kennel.schema
      (fun query => query.split.length == 4) = true := by decide +kernel
  obtain ⟨written, meaning, select, hread, hmeaning, hselect, hlength⟩ :=
    exists_of_selectPasses hpasses
  exact ⟨written, meaning, select, hread, hmeaning, hselect, eq_of_beq hlength,
    interpretPhrase_split_typed hmeaning hselect⟩

end EntityQuery

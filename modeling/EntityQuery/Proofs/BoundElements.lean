import EntityQuery.Proofs.Judgement

/-!
# Bound and mentioned elements

The elements that a tree binds are those of the spaces of its queries, however deeply these are
nested, one entry for each place in a space. A judgement covers every element that the tree
mentions: each of the leaves meets its rule in some scope, which holds nothing but what is in reach
from outside and what the tree binds.

* `Statement.boundElements`, `Select.boundElements`, `Expression.boundElements`.
* `Mentioned`: the elements among some leaves meet their rule.
* `Expression.Holds.mentioned`, `Select.Holds.mentioned`, `Statement.Holds.mentioned`.
-/

namespace EntityQuery.Resolved

mutual

/-- The elements of the spaces of all queries in the expression. -/
def Expression.boundElements : Expression → List FromElement
  | .literal _ => []
  | .parameter _ => []
  | .element _ => []
  | .entityType _ => []
  | .reference attained => attained.boundElements
  | .indexed attained => attained.boundElements
  | .constant _ _ _ => []
  | .mapEntry _ _ _ => []
  | .collectionFunction _ argument _ => argument.boundElements
  | .call _ _ _ _ arguments _ => expressionsBound arguments
  | .arithmetic _ left right _ => left.boundElements ++ right.boundElements
  | .concatenation left right => left.boundElements ++ right.boundElements
  | .unary _ operand => operand.boundElements
  | .simpleCase operand whens otherwise _ =>
    operand.boundElements ++ simpleWhensBound whens ++ optionalBound otherwise
  | .searchedCase whens otherwise _ => searchedWhensBound whens ++ optionalBound otherwise
  | .subquery nested => nested.boundElements
  | .selection _ _ _ => []
  | .instantiation _ arguments => argumentsBound arguments

def AttributeReference.boundElements : AttributeReference → List FromElement
  | .mk source _ _ => source.boundElements

def PathSource.boundElements : PathSource → List FromElement
  | .element _ => []
  | .indexed attained => attained.boundElements
  | .reference attained => attained.boundElements

def IndexedReference.boundElements : IndexedReference → List FromElement
  | .mk collection index _ => collection.boundElements ++ index.boundElements

def expressionsBound : List Expression → List FromElement
  | [] => []
  | expression :: expressions => expression.boundElements ++ expressionsBound expressions

def optionalBound : Option Expression → List FromElement
  | none => []
  | some expression => expression.boundElements

def SimpleWhen.boundElements : SimpleWhen → List FromElement
  | .mk value result => value.boundElements ++ result.boundElements

def simpleWhensBound : List SimpleWhen → List FromElement
  | [] => []
  | branch :: branches => branch.boundElements ++ simpleWhensBound branches

def SearchedWhen.boundElements : SearchedWhen → List FromElement
  | .mk condition result => condition.boundElements ++ result.boundElements

def searchedWhensBound : List SearchedWhen → List FromElement
  | [] => []
  | branch :: branches => branch.boundElements ++ searchedWhensBound branches

def Argument.boundElements : Argument → List FromElement
  | .mk expression _ => expression.boundElements

def argumentsBound : List Argument → List FromElement
  | [] => []
  | argument :: arguments => argument.boundElements ++ argumentsBound arguments

def Predicate.boundElements : Predicate → List FromElement
  | .and left right => left.boundElements ++ right.boundElements
  | .or left right => left.boundElements ++ right.boundElements
  | .not inner => inner.boundElements
  | .grouped inner => inner.boundElements
  | .comparison _ left right => left.boundElements ++ right.boundElements
  | .between expression lower upper _ =>
    expression.boundElements ++ lower.boundElements ++ upper.boundElements
  | .like matched pattern escape _ =>
    matched.boundElements ++ pattern.boundElements ++ optionalBound escape
  | .inList expression items _ => expression.boundElements ++ expressionsBound items
  | .inSubquery expression nested _ => expression.boundElements ++ nested.boundElements
  | .isNull expression _ => expression.boundElements
  | .isEmpty collection _ => collection.boundElements
  | .memberOf plural other _ => plural.boundElements ++ other.boundElements
  | .existence nested _ => nested.boundElements

def restrictionBound : Option Predicate → List FromElement
  | none => []
  | some predicate => predicate.boundElements

def Subquery.boundElements : Subquery → List FromElement
  | .mk select _ => select.boundElements

def Selection.boundElements : Selection → List FromElement
  | .mk expression _ => expression.boundElements

def selectionsBound : List Selection → List FromElement
  | [] => []
  | selection :: selections => selection.boundElements ++ selectionsBound selections

def Join.boundElements : Join → List FromElement
  | .mk element restriction => element :: restrictionBound restriction

def joinsBound : List Join → List FromElement
  | [] => []
  | join :: joins => join.boundElements ++ joinsBound joins

def Space.boundElements : Space → List FromElement
  | .mk root joins => root :: joinsBound joins

def spacesBound : List Space → List FromElement
  | [] => []
  | space :: spaces => space.boundElements ++ spacesBound spaces

def SortItem.boundElements : SortItem → List FromElement
  | .mk expression _ _ => expression.boundElements

def sortItemsBound : List SortItem → List FromElement
  | [] => []
  | item :: items => item.boundElements ++ sortItemsBound items

def orderBound : Option (List SortItem) → List FromElement
  | none => []
  | some items => sortItemsBound items

/-- The elements of the spaces of the query and of all queries nested in it. -/
def Select.boundElements : Select → List FromElement
  | .mk spaces _ selections restriction order limit offset =>
    spacesBound spaces ++ selectionsBound selections ++ restrictionBound restriction
      ++ orderBound order ++ optionalBound limit ++ optionalBound offset

end

def Assignment.boundElements (assignment : Assignment) : List FromElement :=
  assignment.target.boundElements ++ assignment.value.boundElements

/-- The elements of all spaces of the statement, the target of a bulk statement included. -/
def Statement.boundElements : Statement → List FromElement
  | .select query => query.boundElements
  | .update target assignments restriction =>
    target.boundElements ++ assignments.flatMap Assignment.boundElements
      ++ restrictionBound restriction
  | .delete target restriction => target.boundElements ++ restrictionBound restriction
  | .insert target stateFields query =>
    target.boundElements ++ stateFields.flatMap AttributeReference.boundElements
      ++ query.boundElements

/-! ## Mentioned elements -/

/-- The elements among the leaves meet their rule in a scope of what is in reach and bound. -/
def Mentioned (rules : Rules) (scope bound : List FromElement) (leaves : List Leaf) : Prop :=
  ∀ element, .element element ∈ leaves →
    ∃ inner, inner ⊆ scope ++ bound ∧ rules.element inner element

namespace Mentioned

variable {rules : Rules} {scope bound more : List FromElement} {leaves others : List Leaf}

theorem nil : Mentioned rules scope bound [] := by
  intro element hmem
  cases hmem

theorem literal (token : Literal) : Mentioned rules scope [] [.literal token] := by
  intro element hmem
  simp at hmem

theorem parameter (written : Phrase.Parameter) : Mentioned rules scope [] [.parameter written] := by
  intro element hmem
  simp at hmem

theorem element {element : FromElement} (h : rules.element scope element) :
    Mentioned rules scope [] [.element element] := by
  intro other hmem
  have hsame : other = element := by simpa using hmem
  rw [hsame]
  exact ⟨scope, List.subset_append_left _ _, h⟩

theorem append (h : Mentioned rules scope bound leaves) (h' : Mentioned rules scope more others) :
    Mentioned rules scope (bound ++ more) (leaves ++ others) := by
  intro element hmem
  rcases List.mem_append.mp hmem with hmem | hmem
  · obtain ⟨inner, hsub, hrule⟩ := h element hmem
    refine ⟨inner, List.Subset.trans hsub ?_, hrule⟩
    rw [← List.append_assoc]
    exact List.subset_append_left _ _
  · obtain ⟨inner, hsub, hrule⟩ := h' element hmem
    refine ⟨inner, List.Subset.trans hsub ?_, hrule⟩
    exact List.append_subset.mpr ⟨List.subset_append_left _ _,
      List.Subset.trans (List.subset_append_right bound more) (List.subset_append_right _ _)⟩

/-- An element that is bound at a place is mentioned there. -/
theorem cons {element : FromElement} (helement : rules.element scope element)
    (h : Mentioned rules scope bound leaves) :
    Mentioned rules scope (element :: bound) (.element element :: leaves) := by
  intro other hmem
  rcases List.mem_cons.mp hmem with hsame | hmem
  · cases hsame
    exact ⟨scope, List.subset_append_left _ _, helement⟩
  · obtain ⟨inner, hsub, hrule⟩ := h other hmem
    refine ⟨inner, List.Subset.trans hsub ?_, hrule⟩
    exact List.append_subset.mpr ⟨List.subset_append_left _ _,
      List.Subset.trans (List.subset_cons_self _ _) (List.subset_append_right _ _)⟩

/-- Elements that the tree binds need not be in reach from outside. -/
theorem enclose (h : Mentioned rules (more ++ scope) bound leaves) (hsub : more ⊆ bound) :
    Mentioned rules scope bound leaves := by
  intro element hmem
  obtain ⟨inner, hinner, hrule⟩ := h element hmem
  refine ⟨inner, List.Subset.trans hinner ?_, hrule⟩
  refine List.append_subset.mpr ⟨List.append_subset.mpr ⟨?_, List.subset_append_left _ _⟩,
    List.subset_append_right _ _⟩
  exact List.Subset.trans hsub (List.subset_append_right _ _)

/-- What a tree binds itself need not be in reach at all. -/
theorem closed (h : Mentioned rules scope bound leaves) (hsub : scope ⊆ bound) :
    Mentioned rules [] bound leaves := by
  rw [← List.append_nil scope] at h
  exact h.enclose hsub

theorem flatMap {α : Type} {items : List α} {bounds : α → List FromElement} {tips : α → List Leaf}
    (h : ∀ item ∈ items, Mentioned rules scope (bounds item) (tips item)) :
    Mentioned rules scope (items.flatMap bounds) (items.flatMap tips) := by
  induction items with
  | nil => exact nil
  | cons item items ih =>
    obtain ⟨hitem, hitems⟩ := List.forall_mem_cons.mp h
    exact hitem.append (ih hitems)

end Mentioned

/-- The elements of spaces are bound by them. -/
theorem joinElements_subset (joins : List Join) : joins.map Join.element ⊆ joinsBound joins := by
  induction joins with
  | nil => exact List.nil_subset _
  | cons join joins ih =>
    obtain ⟨element, restriction⟩ := join
    refine List.cons_subset.mpr ⟨List.mem_cons_self, List.Subset.trans ih ?_⟩
    exact List.subset_append_right (element :: restrictionBound restriction) _

theorem elements_subset_bound (space : Space) : space.elements ⊆ space.boundElements := by
  obtain ⟨root, joins⟩ := space
  exact List.cons_subset.mpr ⟨List.mem_cons_self,
    List.Subset.trans (joinElements_subset joins) (List.subset_cons_self _ _)⟩

theorem spaceElements_subset (spaces : List Space) : spaceElements spaces ⊆ spacesBound spaces := by
  induction spaces with
  | nil => exact List.nil_subset _
  | cons space spaces ih =>
    exact List.append_subset.mpr
      ⟨List.Subset.trans (elements_subset_bound space) (List.subset_append_left _ _),
        List.Subset.trans ih (List.subset_append_right _ _)⟩

section

variable {rules : Rules}

mutual

theorem Expression.Holds.mentioned {scope : List FromElement} :
    ∀ {node : Expression}, node.Holds rules scope →
      Mentioned rules scope node.boundElements node.leaves
  | .literal token, _ => .literal token
  | .parameter written, _ => .parameter written
  | .element _, ⟨_, h⟩ => .element h
  | .entityType _, _ => .nil
  | .reference _, ⟨_, h⟩ => AttributeReference.Holds.mentioned h
  | .indexed _, ⟨_, h⟩ => IndexedReference.Holds.mentioned h
  | .constant _ _ _, _ => .nil
  | .mapEntry _ _ _, ⟨_, h⟩ => .element h
  | .collectionFunction _ argument _, ⟨_, h⟩ =>
    (h.mentioned : Mentioned rules scope _ argument.leaves)
  | .call _ _ _ _ _ _, ⟨_, h⟩ => expressionsHold_mentioned h
  | .arithmetic _ _ _ _, ⟨_, hl, hr⟩ => hl.mentioned.append hr.mentioned
  | .concatenation _ _, ⟨_, hl, hr⟩ => hl.mentioned.append hr.mentioned
  | .unary _ operand, ⟨_, h⟩ => (h.mentioned : Mentioned rules scope _ operand.leaves)
  | .simpleCase _ _ _ _, ⟨_, ho, hw, he⟩ =>
    (ho.mentioned.append (simpleWhensHold_mentioned hw)).append (optionalHolds_mentioned he)
  | .searchedCase _ _ _, ⟨_, hw, he⟩ =>
    (searchedWhensHold_mentioned hw).append (optionalHolds_mentioned he)
  | .subquery _, ⟨_, h⟩ => Subquery.Holds.mentioned h
  | .selection _ _ _, _ => .nil
  | .instantiation _ _, ⟨_, h⟩ => argumentsHold_mentioned h

theorem AttributeReference.Holds.mentioned {scope : List FromElement} :
    ∀ {node : AttributeReference}, node.Holds rules scope →
      Mentioned rules scope node.boundElements node.leaves
  | .mk _ _ _, ⟨_, h⟩ => PathSource.Holds.mentioned h

theorem PathSource.Holds.mentioned {scope : List FromElement} :
    ∀ {node : PathSource}, node.Holds rules scope →
      Mentioned rules scope node.boundElements node.leaves
  | .element _, h => .element h
  | .indexed _, h => IndexedReference.Holds.mentioned h
  | .reference _, h => AttributeReference.Holds.mentioned h

theorem IndexedReference.Holds.mentioned {scope : List FromElement} :
    ∀ {node : IndexedReference}, node.Holds rules scope →
      Mentioned rules scope node.boundElements node.leaves
  | .mk _ _ _, ⟨_, hc, hi⟩ => hc.mentioned.append hi.mentioned

theorem expressionsHold_mentioned {scope : List FromElement} :
    ∀ {nodes : List Expression}, expressionsHold rules scope nodes →
      Mentioned rules scope (expressionsBound nodes) (expressionLeaves nodes)
  | [], _ => .nil
  | _ :: _, ⟨h, hs⟩ => h.mentioned.append (expressionsHold_mentioned hs)

theorem optionalHolds_mentioned {scope : List FromElement} :
    ∀ {node : Option Expression}, optionalHolds rules scope node →
      Mentioned rules scope (optionalBound node) (optionalLeaves node)
  | none, _ => .nil
  | some _, h => Expression.Holds.mentioned h

theorem SimpleWhen.Holds.mentioned {scope : List FromElement} :
    ∀ {node : SimpleWhen}, node.Holds rules scope →
      Mentioned rules scope node.boundElements node.leaves
  | .mk _ _, ⟨hv, hr⟩ => hv.mentioned.append hr.mentioned

theorem simpleWhensHold_mentioned {scope : List FromElement} :
    ∀ {nodes : List SimpleWhen}, simpleWhensHold rules scope nodes →
      Mentioned rules scope (simpleWhensBound nodes) (simpleWhenLeaves nodes)
  | [], _ => .nil
  | _ :: _, ⟨h, hs⟩ => h.mentioned.append (simpleWhensHold_mentioned hs)

theorem SearchedWhen.Holds.mentioned {scope : List FromElement} :
    ∀ {node : SearchedWhen}, node.Holds rules scope →
      Mentioned rules scope node.boundElements node.leaves
  | .mk _ _, ⟨hc, hr⟩ => hc.mentioned.append hr.mentioned

theorem searchedWhensHold_mentioned {scope : List FromElement} :
    ∀ {nodes : List SearchedWhen}, searchedWhensHold rules scope nodes →
      Mentioned rules scope (searchedWhensBound nodes) (searchedWhenLeaves nodes)
  | [], _ => .nil
  | _ :: _, ⟨h, hs⟩ => h.mentioned.append (searchedWhensHold_mentioned hs)

theorem Argument.Holds.mentioned {scope : List FromElement} :
    ∀ {node : Argument}, node.Holds rules scope →
      Mentioned rules scope node.boundElements node.leaves
  | .mk _ _, h => Expression.Holds.mentioned h

theorem argumentsHold_mentioned {scope : List FromElement} :
    ∀ {nodes : List Argument}, argumentsHold rules scope nodes →
      Mentioned rules scope (argumentsBound nodes) (argumentLeaves nodes)
  | [], _ => .nil
  | _ :: _, ⟨h, hs⟩ => h.mentioned.append (argumentsHold_mentioned hs)

theorem Predicate.Holds.mentioned {scope : List FromElement} :
    ∀ {node : Predicate}, node.Holds rules scope →
      Mentioned rules scope node.boundElements node.leaves
  | .and _ _, ⟨_, hl, hr⟩ => hl.mentioned.append hr.mentioned
  | .or _ _, ⟨_, hl, hr⟩ => hl.mentioned.append hr.mentioned
  | .not inner, ⟨_, h⟩ => (h.mentioned : Mentioned rules scope _ inner.leaves)
  | .grouped inner, ⟨_, h⟩ => (h.mentioned : Mentioned rules scope _ inner.leaves)
  | .comparison _ _ _, ⟨_, hl, hr⟩ => hl.mentioned.append hr.mentioned
  | .between _ _ _ _, ⟨_, he, hl, hu⟩ => (he.mentioned.append hl.mentioned).append hu.mentioned
  | .like _ _ _ _, ⟨_, hm, hp, he⟩ =>
    (hm.mentioned.append hp.mentioned).append (optionalHolds_mentioned he)
  | .inList _ _ _, ⟨_, he, hi⟩ => he.mentioned.append (expressionsHold_mentioned hi)
  | .inSubquery _ _ _, ⟨_, he, hn⟩ => he.mentioned.append hn.mentioned
  | .isNull _ _, ⟨_, h⟩ => Expression.Holds.mentioned h
  | .isEmpty _ _, ⟨_, h⟩ => AttributeReference.Holds.mentioned h
  | .memberOf _ _ _, ⟨_, hp, ho⟩ => hp.mentioned.append ho.mentioned
  | .existence _ _, ⟨_, h⟩ => Subquery.Holds.mentioned h

theorem restrictionHolds_mentioned {scope : List FromElement} :
    ∀ {node : Option Predicate}, restrictionHolds rules scope node →
      Mentioned rules scope (restrictionBound node) (restrictionLeaves node)
  | none, _ => .nil
  | some _, h => Predicate.Holds.mentioned h

theorem Subquery.Holds.mentioned {scope : List FromElement} :
    ∀ {node : Subquery}, node.Holds rules scope →
      Mentioned rules scope node.boundElements node.leaves
  | .mk _ _, ⟨_, h⟩ => Select.Holds.mentioned h

theorem Selection.Holds.mentioned {scope : List FromElement} :
    ∀ {node : Selection}, node.Holds rules scope →
      Mentioned rules scope node.boundElements node.leaves
  | .mk _ _, h => Expression.Holds.mentioned h

theorem selectionsHold_mentioned {scope : List FromElement} :
    ∀ {nodes : List Selection}, selectionsHold rules scope nodes →
      Mentioned rules scope (selectionsBound nodes) (selectionLeaves nodes)
  | [], _ => .nil
  | _ :: _, ⟨h, hs⟩ => h.mentioned.append (selectionsHold_mentioned hs)

theorem Join.Holds.mentioned {scope : List FromElement} :
    ∀ {node : Join}, node.Holds rules scope →
      Mentioned rules scope node.boundElements node.leaves
  | .mk _ _, ⟨he, hr⟩ => .cons he (restrictionHolds_mentioned hr)

theorem joinsHold_mentioned {scope : List FromElement} :
    ∀ {nodes : List Join}, joinsHold rules scope nodes →
      Mentioned rules scope (joinsBound nodes) (joinLeaves nodes)
  | [], _ => .nil
  | _ :: _, ⟨h, hs⟩ => h.mentioned.append (joinsHold_mentioned hs)

theorem Space.Holds.mentioned {scope : List FromElement} :
    ∀ {node : Space}, node.Holds rules scope →
      Mentioned rules scope node.boundElements node.leaves
  | .mk _ _, ⟨hr, hj⟩ => .cons hr (joinsHold_mentioned hj)

theorem spacesHold_mentioned {scope : List FromElement} :
    ∀ {nodes : List Space}, spacesHold rules scope nodes →
      Mentioned rules scope (spacesBound nodes) (spaceLeaves nodes)
  | [], _ => .nil
  | _ :: _, ⟨h, hs⟩ => h.mentioned.append (spacesHold_mentioned hs)

/-- A result variable mentions no element. -/
theorem SortItem.Holds.mentioned {scope : List FromElement} :
    ∀ {node : SortItem}, node.Holds rules scope →
      Mentioned rules scope node.boundElements node.leaves
  | .mk (.selection _ _ _) _ _, _ => .nil
  | .mk _ _ _, .inr h => Expression.Holds.mentioned h

theorem sortItemsHold_mentioned {scope : List FromElement} :
    ∀ {nodes : List SortItem}, sortItemsHold rules scope nodes →
      Mentioned rules scope (sortItemsBound nodes) (sortLeaves nodes)
  | [], _ => .nil
  | _ :: _, ⟨h, hs⟩ => h.mentioned.append (sortItemsHold_mentioned hs)

theorem orderHolds_mentioned {scope : List FromElement} :
    ∀ {node : Option (List SortItem)}, orderHolds rules scope node →
      Mentioned rules scope (orderBound node) (orderLeaves node)
  | none, _ => .nil
  | some _, h => sortItemsHold_mentioned h

theorem Select.Holds.mentioned {scope : List FromElement} :
    ∀ {node : Select}, node.Holds rules scope →
      Mentioned rules scope node.boundElements node.leaves
  | .mk spaces _ selections restriction order limit offset, ⟨_, hf, hs, hr, ho, hl, hp⟩ => by
    have hall := (((((spacesHold_mentioned hf).append (selectionsHold_mentioned hs)).append
      (restrictionHolds_mentioned hr)).append (orderHolds_mentioned ho)).append
      (optionalHolds_mentioned hl)).append (optionalHolds_mentioned hp)
    refine hall.enclose ?_
    simp only [List.append_assoc]
    exact List.Subset.trans (spaceElements_subset spaces) (List.subset_append_left _ _)

end

theorem Assignment.Holds.mentioned {scope : List FromElement} {assignment : Assignment}
    (h : assignment.Holds rules scope) :
    Mentioned rules scope assignment.boundElements assignment.leaves :=
  h.1.mentioned.append h.2.mentioned

/-- Every mention in a statement meets its rule in a scope of what the statement binds. -/
theorem Statement.Holds.mentioned {statement : Statement} (h : statement.Holds rules) :
    Mentioned rules [] statement.boundElements statement.leaves := by
  cases statement with
  | select query => exact Select.Holds.mentioned h
  | update target assignments restriction =>
    obtain ⟨htarget, hassignments, hrestriction⟩ := h
    have hclauses := (Mentioned.flatMap fun assignment hmem =>
      (hassignments assignment hmem).mentioned).append (restrictionHolds_mentioned hrestriction)
    have hall := (htarget.mentioned.append hclauses).closed
      (List.Subset.trans (elements_subset_bound target) (List.subset_append_left _ _))
    rw [← List.append_assoc, ← List.append_assoc] at hall
    exact hall
  | delete target restriction =>
    obtain ⟨htarget, hrestriction⟩ := h
    exact (htarget.mentioned.append (restrictionHolds_mentioned hrestriction)).closed
      (List.Subset.trans (elements_subset_bound target) (List.subset_append_left _ _))
  | insert target stateFields query =>
    obtain ⟨htarget, hfields, hquery⟩ := h
    have hbulk := (htarget.mentioned.append (Mentioned.flatMap fun field hmem =>
      (hfields field hmem).mentioned)).closed
      (List.Subset.trans (elements_subset_bound target) (List.subset_append_left _ _))
    exact hbulk.append hquery.mentioned

end

end EntityQuery.Resolved

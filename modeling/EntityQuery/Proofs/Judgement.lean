import EntityQuery.Resolved.Leaf
import EntityQuery.Resolved.Typing

/-!
# Judgements on resolved queries

A judgement says of every node of a tree what is required of that node, and of every from element
that is mentioned what is required of it at that place. What may be mentioned depends on the
place: the scope of a query holds the elements of its own spaces and of the queries around it.

* `Rules`: what is required, node by node.
* `Statement.Holds`, `Select.Holds`, `Expression.Holds`: every node meets its rule.
* `Expression.Holds.mono`, `Select.Holds.mono`, `Statement.Holds.mono`: what holds also holds
  under weaker rules and in larger scopes.
-/

namespace EntityQuery.Resolved

/-- What a judgement requires of the nodes of a tree. -/
structure Rules where
  /-- An element that is mentioned where the elements of a list are in scope. -/
  element : List FromElement → FromElement → Prop := fun _ _ => True
  reference : AttributeReference → Prop := fun _ => True
  indexed : IndexedReference → Prop := fun _ => True
  expression : Expression → Prop := fun _ => True
  predicate : Predicate → Prop := fun _ => True
  subquery : Subquery → Prop := fun _ => True
  select : Select → Prop := fun _ => True

/-- The elements of the spaces of one from clause. -/
def spaceElements (spaces : List Space) : List FromElement := spaces.flatMap Space.elements

/-- The expression is a result variable. -/
def Expression.isVariable : Expression → Bool
  | .selection _ _ _ => true
  | _ => false

/-! ## Judgements -/

section

variable (rules : Rules)

mutual

/-- Every node of the expression meets its rule. -/
def Expression.Holds (scope : List FromElement) : Expression → Prop
  | .literal token => rules.expression (.literal token)
  | .parameter written => rules.expression (.parameter written)
  | .element bound => rules.expression (.element bound) ∧ rules.element scope bound
  | .entityType entity => rules.expression (.entityType entity)
  | .reference attained => rules.expression (.reference attained) ∧ attained.Holds scope
  | .indexed attained => rules.expression (.indexed attained) ∧ attained.Holds scope
  | .constant owner member type => rules.expression (.constant owner member type)
  | .mapEntry function join type? =>
    rules.expression (.mapEntry function join type?) ∧ rules.element scope join
  | .collectionFunction function argument type? =>
    rules.expression (.collectionFunction function argument type?) ∧ argument.Holds scope
  | .call name distinct star standard arguments type? =>
    rules.expression (.call name distinct star standard arguments type?)
      ∧ expressionsHold scope arguments
  | .arithmetic operator left right type? =>
    rules.expression (.arithmetic operator left right type?) ∧ left.Holds scope
      ∧ right.Holds scope
  | .concatenation left right =>
    rules.expression (.concatenation left right) ∧ left.Holds scope ∧ right.Holds scope
  | .unary sign operand => rules.expression (.unary sign operand) ∧ operand.Holds scope
  | .simpleCase operand whens otherwise type? =>
    rules.expression (.simpleCase operand whens otherwise type?) ∧ operand.Holds scope
      ∧ simpleWhensHold scope whens ∧ optionalHolds scope otherwise
  | .searchedCase whens otherwise type? =>
    rules.expression (.searchedCase whens otherwise type?) ∧ searchedWhensHold scope whens
      ∧ optionalHolds scope otherwise
  | .subquery nested => rules.expression (.subquery nested) ∧ nested.Holds scope
  | .selection aliasName position type? => rules.expression (.selection aliasName position type?)
  | .instantiation target arguments =>
    rules.expression (.instantiation target arguments) ∧ argumentsHold scope arguments

def AttributeReference.Holds (scope : List FromElement) : AttributeReference → Prop
  | .mk source declared type => rules.reference (.mk source declared type) ∧ source.Holds scope

def PathSource.Holds (scope : List FromElement) : PathSource → Prop
  | .element bound => rules.element scope bound
  | .indexed attained => attained.Holds scope
  | .reference attained => attained.Holds scope

def IndexedReference.Holds (scope : List FromElement) : IndexedReference → Prop
  | .mk collection index type =>
    rules.indexed (.mk collection index type) ∧ collection.Holds scope ∧ index.Holds scope

def expressionsHold (scope : List FromElement) : List Expression → Prop
  | [] => True
  | expression :: expressions => expression.Holds scope ∧ expressionsHold scope expressions

def optionalHolds (scope : List FromElement) : Option Expression → Prop
  | none => True
  | some expression => expression.Holds scope

def SimpleWhen.Holds (scope : List FromElement) : SimpleWhen → Prop
  | .mk value result => value.Holds scope ∧ result.Holds scope

def simpleWhensHold (scope : List FromElement) : List SimpleWhen → Prop
  | [] => True
  | branch :: branches => branch.Holds scope ∧ simpleWhensHold scope branches

def SearchedWhen.Holds (scope : List FromElement) : SearchedWhen → Prop
  | .mk condition result => condition.Holds scope ∧ result.Holds scope

def searchedWhensHold (scope : List FromElement) : List SearchedWhen → Prop
  | [] => True
  | branch :: branches => branch.Holds scope ∧ searchedWhensHold scope branches

def Argument.Holds (scope : List FromElement) : Argument → Prop
  | .mk expression _ => expression.Holds scope

def argumentsHold (scope : List FromElement) : List Argument → Prop
  | [] => True
  | argument :: arguments => argument.Holds scope ∧ argumentsHold scope arguments

/-- Every node of the predicate meets its rule. -/
def Predicate.Holds (scope : List FromElement) : Predicate → Prop
  | .and left right =>
    rules.predicate (.and left right) ∧ left.Holds scope ∧ right.Holds scope
  | .or left right => rules.predicate (.or left right) ∧ left.Holds scope ∧ right.Holds scope
  | .not inner => rules.predicate (.not inner) ∧ inner.Holds scope
  | .grouped inner => rules.predicate (.grouped inner) ∧ inner.Holds scope
  | .comparison operator left right =>
    rules.predicate (.comparison operator left right) ∧ left.Holds scope ∧ right.Holds scope
  | .between expression lower upper negated =>
    rules.predicate (.between expression lower upper negated) ∧ expression.Holds scope
      ∧ lower.Holds scope ∧ upper.Holds scope
  | .like matched pattern escape negated =>
    rules.predicate (.like matched pattern escape negated) ∧ matched.Holds scope
      ∧ pattern.Holds scope ∧ optionalHolds scope escape
  | .inList expression items negated =>
    rules.predicate (.inList expression items negated) ∧ expression.Holds scope
      ∧ expressionsHold scope items
  | .inSubquery expression nested negated =>
    rules.predicate (.inSubquery expression nested negated) ∧ expression.Holds scope
      ∧ nested.Holds scope
  | .isNull expression negated =>
    rules.predicate (.isNull expression negated) ∧ expression.Holds scope
  | .isEmpty collection negated =>
    rules.predicate (.isEmpty collection negated) ∧ collection.Holds scope
  | .memberOf plural other negated =>
    rules.predicate (.memberOf plural other negated) ∧ plural.Holds scope ∧ other.Holds scope
  | .existence nested negated =>
    rules.predicate (.existence nested negated) ∧ nested.Holds scope

def restrictionHolds (scope : List FromElement) : Option Predicate → Prop
  | none => True
  | some predicate => predicate.Holds scope

def Subquery.Holds (scope : List FromElement) : Subquery → Prop
  | .mk select type? => rules.subquery (.mk select type?) ∧ select.Holds scope

def Selection.Holds (scope : List FromElement) : Selection → Prop
  | .mk expression _ => expression.Holds scope

def selectionsHold (scope : List FromElement) : List Selection → Prop
  | [] => True
  | selection :: selections => selection.Holds scope ∧ selectionsHold scope selections

def Join.Holds (scope : List FromElement) : Join → Prop
  | .mk element restriction => rules.element scope element ∧ restrictionHolds scope restriction

def joinsHold (scope : List FromElement) : List Join → Prop
  | [] => True
  | join :: joins => join.Holds scope ∧ joinsHold scope joins

def Space.Holds (scope : List FromElement) : Space → Prop
  | .mk root joins => rules.element scope root ∧ joinsHold scope joins

def spacesHold (scope : List FromElement) : List Space → Prop
  | [] => True
  | space :: spaces => space.Holds scope ∧ spacesHold scope spaces

/-- A result variable stands for a selection of its query and is no mention of its own. -/
def SortItem.Holds (scope : List FromElement) : SortItem → Prop
  | .mk expression _ _ => expression.isVariable = true ∨ expression.Holds scope

def sortItemsHold (scope : List FromElement) : List SortItem → Prop
  | [] => True
  | item :: items => item.Holds scope ∧ sortItemsHold scope items

def orderHolds (scope : List FromElement) : Option (List SortItem) → Prop
  | none => True
  | some items => sortItemsHold scope items

/-- Every node of the query meets its rule where the elements of `scope` are in reach from
outside. -/
def Select.Holds (scope : List FromElement) : Select → Prop
  | .mk spaces distinct selections restriction order limit offset =>
    rules.select (.mk spaces distinct selections restriction order limit offset)
      ∧ spacesHold (spaceElements spaces ++ scope) spaces
      ∧ selectionsHold (spaceElements spaces ++ scope) selections
      ∧ restrictionHolds (spaceElements spaces ++ scope) restriction
      ∧ orderHolds (spaceElements spaces ++ scope) order
      ∧ optionalHolds (spaceElements spaces ++ scope) limit
      ∧ optionalHolds (spaceElements spaces ++ scope) offset

end

def Assignment.Holds (scope : List FromElement) (assignment : Assignment) : Prop :=
  assignment.target.Holds rules scope ∧ assignment.value.Holds rules scope

/-- Every node of the statement meets its rule. The target of a bulk statement is in scope in its
clauses, but not in the query of an insertion. -/
def Statement.Holds : Statement → Prop
  | .select query => query.Holds rules []
  | .update target assignments restriction =>
    target.Holds rules target.elements
      ∧ (∀ assignment ∈ assignments, assignment.Holds rules target.elements)
      ∧ restrictionHolds rules target.elements restriction
  | .delete target restriction =>
    target.Holds rules target.elements ∧ restrictionHolds rules target.elements restriction
  | .insert target stateFields query =>
    target.Holds rules target.elements
      ∧ (∀ field ∈ stateFields, field.Holds rules target.elements)
      ∧ query.Holds rules []

end

/-! ## Weaker rules and larger scopes -/

/-- The second rules require no more than the first ones, even in a larger scope. -/
structure Rules.Implies (rules weaker : Rules) : Prop where
  element : ∀ {scope larger : List FromElement} {bound : FromElement}, scope ⊆ larger →
    rules.element scope bound → weaker.element larger bound
  reference : ∀ {attained : AttributeReference}, rules.reference attained →
    weaker.reference attained
  indexed : ∀ {attained : IndexedReference}, rules.indexed attained → weaker.indexed attained
  expression : ∀ {node : Expression}, rules.expression node → weaker.expression node
  predicate : ∀ {node : Predicate}, rules.predicate node → weaker.predicate node
  subquery : ∀ {node : Subquery}, rules.subquery node → weaker.subquery node
  select : ∀ {node : Select}, rules.select node → weaker.select node

section

-- The linter does not see that the members of a mutual block use a hypothesis through each other.
set_option linter.unusedSectionVars false

variable {rules weaker : Rules} (himp : rules.Implies weaker)
include himp

mutual

theorem Expression.Holds.mono {scope larger : List FromElement} (hsub : scope ⊆ larger) :
    ∀ {node : Expression}, node.Holds rules scope → node.Holds weaker larger
  | .literal _, h => himp.expression h
  | .parameter _, h => himp.expression h
  | .element _, ⟨h, hb⟩ => ⟨himp.expression h, himp.element hsub hb⟩
  | .entityType _, h => himp.expression h
  | .reference _, ⟨h, ha⟩ => ⟨himp.expression h, ha.mono hsub⟩
  | .indexed _, ⟨h, ha⟩ => ⟨himp.expression h, ha.mono hsub⟩
  | .constant _ _ _, h => himp.expression h
  | .mapEntry _ _ _, ⟨h, hj⟩ => ⟨himp.expression h, himp.element hsub hj⟩
  | .collectionFunction _ _ _, ⟨h, ha⟩ => ⟨himp.expression h, ha.mono hsub⟩
  | .call _ _ _ _ _ _, ⟨h, ha⟩ => ⟨himp.expression h, expressionsHold_mono hsub ha⟩
  | .arithmetic _ _ _ _, ⟨h, hl, hr⟩ => ⟨himp.expression h, hl.mono hsub, hr.mono hsub⟩
  | .concatenation _ _, ⟨h, hl, hr⟩ => ⟨himp.expression h, hl.mono hsub, hr.mono hsub⟩
  | .unary _ _, ⟨h, ho⟩ => ⟨himp.expression h, ho.mono hsub⟩
  | .simpleCase _ _ _ _, ⟨h, ho, hw, he⟩ =>
    ⟨himp.expression h, ho.mono hsub, simpleWhensHold_mono hsub hw, optionalHolds_mono hsub he⟩
  | .searchedCase _ _ _, ⟨h, hw, he⟩ =>
    ⟨himp.expression h, searchedWhensHold_mono hsub hw, optionalHolds_mono hsub he⟩
  | .subquery _, ⟨h, hn⟩ => ⟨himp.expression h, hn.mono hsub⟩
  | .selection _ _ _, h => himp.expression h
  | .instantiation _ _, ⟨h, ha⟩ => ⟨himp.expression h, argumentsHold_mono hsub ha⟩

theorem AttributeReference.Holds.mono {scope larger : List FromElement} (hsub : scope ⊆ larger) :
    ∀ {node : AttributeReference}, node.Holds rules scope → node.Holds weaker larger
  | .mk _ _ _, ⟨h, hs⟩ => ⟨himp.reference h, hs.mono hsub⟩

theorem PathSource.Holds.mono {scope larger : List FromElement} (hsub : scope ⊆ larger) :
    ∀ {node : PathSource}, node.Holds rules scope → node.Holds weaker larger
  | .element _, h => himp.element hsub h
  | .indexed _, h => IndexedReference.Holds.mono hsub h
  | .reference _, h => AttributeReference.Holds.mono hsub h

theorem IndexedReference.Holds.mono {scope larger : List FromElement} (hsub : scope ⊆ larger) :
    ∀ {node : IndexedReference}, node.Holds rules scope → node.Holds weaker larger
  | .mk _ _ _, ⟨h, hc, hi⟩ => ⟨himp.indexed h, hc.mono hsub, hi.mono hsub⟩

theorem expressionsHold_mono {scope larger : List FromElement} (hsub : scope ⊆ larger) :
    ∀ {nodes : List Expression}, expressionsHold rules scope nodes →
      expressionsHold weaker larger nodes
  | [], _ => trivial
  | _ :: _, ⟨h, hs⟩ => ⟨h.mono hsub, expressionsHold_mono hsub hs⟩

theorem optionalHolds_mono {scope larger : List FromElement} (hsub : scope ⊆ larger) :
    ∀ {node : Option Expression}, optionalHolds rules scope node →
      optionalHolds weaker larger node
  | none, _ => trivial
  | some _, h => Expression.Holds.mono hsub h

theorem SimpleWhen.Holds.mono {scope larger : List FromElement} (hsub : scope ⊆ larger) :
    ∀ {node : SimpleWhen}, node.Holds rules scope → node.Holds weaker larger
  | .mk _ _, ⟨hv, hr⟩ => ⟨hv.mono hsub, hr.mono hsub⟩

theorem simpleWhensHold_mono {scope larger : List FromElement} (hsub : scope ⊆ larger) :
    ∀ {nodes : List SimpleWhen}, simpleWhensHold rules scope nodes →
      simpleWhensHold weaker larger nodes
  | [], _ => trivial
  | _ :: _, ⟨h, hs⟩ => ⟨h.mono hsub, simpleWhensHold_mono hsub hs⟩

theorem SearchedWhen.Holds.mono {scope larger : List FromElement} (hsub : scope ⊆ larger) :
    ∀ {node : SearchedWhen}, node.Holds rules scope → node.Holds weaker larger
  | .mk _ _, ⟨hc, hr⟩ => ⟨hc.mono hsub, hr.mono hsub⟩

theorem searchedWhensHold_mono {scope larger : List FromElement} (hsub : scope ⊆ larger) :
    ∀ {nodes : List SearchedWhen}, searchedWhensHold rules scope nodes →
      searchedWhensHold weaker larger nodes
  | [], _ => trivial
  | _ :: _, ⟨h, hs⟩ => ⟨h.mono hsub, searchedWhensHold_mono hsub hs⟩

theorem Argument.Holds.mono {scope larger : List FromElement} (hsub : scope ⊆ larger) :
    ∀ {node : Argument}, node.Holds rules scope → node.Holds weaker larger
  | .mk _ _, h => Expression.Holds.mono hsub h

theorem argumentsHold_mono {scope larger : List FromElement} (hsub : scope ⊆ larger) :
    ∀ {nodes : List Argument}, argumentsHold rules scope nodes → argumentsHold weaker larger nodes
  | [], _ => trivial
  | _ :: _, ⟨h, hs⟩ => ⟨h.mono hsub, argumentsHold_mono hsub hs⟩

theorem Predicate.Holds.mono {scope larger : List FromElement} (hsub : scope ⊆ larger) :
    ∀ {node : Predicate}, node.Holds rules scope → node.Holds weaker larger
  | .and _ _, ⟨h, hl, hr⟩ => ⟨himp.predicate h, hl.mono hsub, hr.mono hsub⟩
  | .or _ _, ⟨h, hl, hr⟩ => ⟨himp.predicate h, hl.mono hsub, hr.mono hsub⟩
  | .not _, ⟨h, hi⟩ => ⟨himp.predicate h, hi.mono hsub⟩
  | .grouped _, ⟨h, hi⟩ => ⟨himp.predicate h, hi.mono hsub⟩
  | .comparison _ _ _, ⟨h, hl, hr⟩ => ⟨himp.predicate h, hl.mono hsub, hr.mono hsub⟩
  | .between _ _ _ _, ⟨h, he, hl, hu⟩ =>
    ⟨himp.predicate h, he.mono hsub, hl.mono hsub, hu.mono hsub⟩
  | .like _ _ _ _, ⟨h, hm, hp, he⟩ =>
    ⟨himp.predicate h, hm.mono hsub, hp.mono hsub, optionalHolds_mono hsub he⟩
  | .inList _ _ _, ⟨h, he, hi⟩ =>
    ⟨himp.predicate h, he.mono hsub, expressionsHold_mono hsub hi⟩
  | .inSubquery _ _ _, ⟨h, he, hn⟩ => ⟨himp.predicate h, he.mono hsub, hn.mono hsub⟩
  | .isNull _ _, ⟨h, he⟩ => ⟨himp.predicate h, he.mono hsub⟩
  | .isEmpty _ _, ⟨h, hc⟩ => ⟨himp.predicate h, hc.mono hsub⟩
  | .memberOf _ _ _, ⟨h, hp, ho⟩ => ⟨himp.predicate h, hp.mono hsub, ho.mono hsub⟩
  | .existence _ _, ⟨h, hn⟩ => ⟨himp.predicate h, hn.mono hsub⟩

theorem restrictionHolds_mono {scope larger : List FromElement} (hsub : scope ⊆ larger) :
    ∀ {node : Option Predicate}, restrictionHolds rules scope node →
      restrictionHolds weaker larger node
  | none, _ => trivial
  | some _, h => Predicate.Holds.mono hsub h

theorem Subquery.Holds.mono {scope larger : List FromElement} (hsub : scope ⊆ larger) :
    ∀ {node : Subquery}, node.Holds rules scope → node.Holds weaker larger
  | .mk _ _, ⟨h, hs⟩ => ⟨himp.subquery h, hs.mono hsub⟩

theorem Selection.Holds.mono {scope larger : List FromElement} (hsub : scope ⊆ larger) :
    ∀ {node : Selection}, node.Holds rules scope → node.Holds weaker larger
  | .mk _ _, h => Expression.Holds.mono hsub h

theorem selectionsHold_mono {scope larger : List FromElement} (hsub : scope ⊆ larger) :
    ∀ {nodes : List Selection}, selectionsHold rules scope nodes →
      selectionsHold weaker larger nodes
  | [], _ => trivial
  | _ :: _, ⟨h, hs⟩ => ⟨h.mono hsub, selectionsHold_mono hsub hs⟩

theorem Join.Holds.mono {scope larger : List FromElement} (hsub : scope ⊆ larger) :
    ∀ {node : Join}, node.Holds rules scope → node.Holds weaker larger
  | .mk _ _, ⟨he, hr⟩ => ⟨himp.element hsub he, restrictionHolds_mono hsub hr⟩

theorem joinsHold_mono {scope larger : List FromElement} (hsub : scope ⊆ larger) :
    ∀ {nodes : List Join}, joinsHold rules scope nodes → joinsHold weaker larger nodes
  | [], _ => trivial
  | _ :: _, ⟨h, hs⟩ => ⟨h.mono hsub, joinsHold_mono hsub hs⟩

theorem Space.Holds.mono {scope larger : List FromElement} (hsub : scope ⊆ larger) :
    ∀ {node : Space}, node.Holds rules scope → node.Holds weaker larger
  | .mk _ _, ⟨hr, hj⟩ => ⟨himp.element hsub hr, joinsHold_mono hsub hj⟩

theorem spacesHold_mono {scope larger : List FromElement} (hsub : scope ⊆ larger) :
    ∀ {nodes : List Space}, spacesHold rules scope nodes → spacesHold weaker larger nodes
  | [], _ => trivial
  | _ :: _, ⟨h, hs⟩ => ⟨h.mono hsub, spacesHold_mono hsub hs⟩

theorem SortItem.Holds.mono {scope larger : List FromElement} (hsub : scope ⊆ larger) :
    ∀ {node : SortItem}, node.Holds rules scope → node.Holds weaker larger
  | .mk _ _ _, .inl h => .inl h
  | .mk _ _ _, .inr h => .inr (h.mono hsub)

theorem sortItemsHold_mono {scope larger : List FromElement} (hsub : scope ⊆ larger) :
    ∀ {nodes : List SortItem}, sortItemsHold rules scope nodes → sortItemsHold weaker larger nodes
  | [], _ => trivial
  | _ :: _, ⟨h, hs⟩ => ⟨h.mono hsub, sortItemsHold_mono hsub hs⟩

theorem orderHolds_mono {scope larger : List FromElement} (hsub : scope ⊆ larger) :
    ∀ {node : Option (List SortItem)}, orderHolds rules scope node → orderHolds weaker larger node
  | none, _ => trivial
  | some _, h => sortItemsHold_mono hsub h

theorem Select.Holds.mono {scope larger : List FromElement} (hsub : scope ⊆ larger) :
    ∀ {node : Select}, node.Holds rules scope → node.Holds weaker larger
  | .mk spaces _ _ _ _ _ _, ⟨h, hf, hs, hr, ho, hl, hp⟩ =>
    have hin : spaceElements spaces ++ scope ⊆ spaceElements spaces ++ larger :=
      List.append_subset.mpr
        ⟨List.subset_append_left _ _, List.Subset.trans hsub (List.subset_append_right _ _)⟩
    ⟨himp.select h, spacesHold_mono hin hf, selectionsHold_mono hin hs,
      restrictionHolds_mono hin hr, orderHolds_mono hin ho, optionalHolds_mono hin hl,
      optionalHolds_mono hin hp⟩

end

theorem Statement.Holds.mono {node : Statement} (h : node.Holds rules) : node.Holds weaker := by
  have hself (scope : List FromElement) : scope ⊆ scope := fun _ ha => ha
  cases node with
  | select query => exact Select.Holds.mono himp (hself _) h
  | update target assignments restriction =>
    obtain ⟨ht, ha, hr⟩ := h
    refine ⟨Space.Holds.mono himp (hself _) ht, ?_, restrictionHolds_mono himp (hself _) hr⟩
    intro assignment hm
    obtain ⟨hf, hv⟩ := ha assignment hm
    exact ⟨AttributeReference.Holds.mono himp (hself _) hf, Expression.Holds.mono himp (hself _) hv⟩
  | delete target restriction =>
    obtain ⟨ht, hr⟩ := h
    exact ⟨Space.Holds.mono himp (hself _) ht, restrictionHolds_mono himp (hself _) hr⟩
  | insert target stateFields query =>
    obtain ⟨ht, hf, hq⟩ := h
    refine ⟨Space.Holds.mono himp (hself _) ht, ?_, Select.Holds.mono himp (hself _) hq⟩
    intro field hm
    exact AttributeReference.Holds.mono himp (hself _) (hf field hm)

end
end EntityQuery.Resolved

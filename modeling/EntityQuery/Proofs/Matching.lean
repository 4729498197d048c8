import EntityQuery.Resolved.Typing

/-!
# Trees that match

Two trees match under an image of the elements if the second one is the first one with every element
replaced by its image: the same nodes with the same names, operators, attributes, positions and
clauses. Only the types that nodes infer from their children may differ, and they do so only where
the types of the children differ.

* `Select.Matches`, `Expression.Matches`: the relation, node by node.
* `Select.eq_of_matches`: trees that match under the identity are equal.
-/

namespace EntityQuery.Resolved

/-- A type that is inferred stays the same where what it is inferred from does. -/
def Inferred {α : Type} (source source' : α) (type? type?' : Option TypeDescriptor) : Prop :=
  source' = source → type?' = type?

/-- The types of some expressions. -/
def typesOf (nodes : List Expression) : List (Option TypeDescriptor) := nodes.map Expression.type?

/-- The same result variable. Its type is inferred from the selections. -/
def Expression.MatchesVariable (selections selections' : List Selection) :
    Expression → Expression → Prop
  | .selection aliasName position type?, node =>
    ∃ type?', node = .selection aliasName position type?'
      ∧ Inferred (selectionType? selections position) (selectionType? selections' position)
        type? type?'
  | _, _ => False

section

variable (image : FromElement → FromElement)

mutual

/-- The second expression is the first one with the images of its elements. -/
def Expression.Matches : Expression → Expression → Prop
  | .literal token => fun node => node = .literal token
  | .parameter written => fun node => node = .parameter written
  | .element bound => fun node => node = .element (image bound)
  | .entityType entity => fun node => node = .entityType entity
  | .reference attained => fun node => ∃ attained', node = .reference attained'
      ∧ attained.Matches attained'
  | .indexed attained => fun node => ∃ attained', node = .indexed attained'
      ∧ attained.Matches attained'
  | .constant owner member type => fun node => node = .constant owner member type
  | .mapEntry function join type? => fun node => node = .mapEntry function (image join) type?
  | .collectionFunction function argument type? => fun node =>
    ∃ argument', node = .collectionFunction function argument' type? ∧ argument.Matches argument'
  | .call name distinct star standard arguments type? => fun node =>
    ∃ arguments' type?', node = .call name distinct star standard arguments' type?'
      ∧ expressionsMatch arguments arguments'
      ∧ Inferred (typesOf arguments) (typesOf arguments') type? type?'
      ∧ (standard = false → type?' = type?)
  | .arithmetic operator left right type? => fun node =>
    ∃ left' right' type?', node = .arithmetic operator left' right' type?'
      ∧ left.Matches left' ∧ right.Matches right'
      ∧ Inferred (typesOf [left, right]) (typesOf [left', right']) type? type?'
  | .concatenation left right => fun node =>
    ∃ left' right', node = .concatenation left' right' ∧ left.Matches left' ∧ right.Matches right'
  | .unary sign operand => fun node =>
    ∃ operand', node = .unary sign operand' ∧ operand.Matches operand'
  | .simpleCase operand whens otherwise type? => fun node =>
    ∃ operand' whens' otherwise' type?', node = .simpleCase operand' whens' otherwise' type?'
      ∧ operand.Matches operand' ∧ simpleWhensMatch whens whens'
      ∧ optionalMatches otherwise otherwise'
      ∧ Inferred (typesOf (whens.map SimpleWhen.result ++ otherwise.toList))
        (typesOf (whens'.map SimpleWhen.result ++ otherwise'.toList)) type? type?'
  | .searchedCase whens otherwise type? => fun node =>
    ∃ whens' otherwise' type?', node = .searchedCase whens' otherwise' type?'
      ∧ searchedWhensMatch whens whens' ∧ optionalMatches otherwise otherwise'
      ∧ Inferred (typesOf (whens.map SearchedWhen.result ++ otherwise.toList))
        (typesOf (whens'.map SearchedWhen.result ++ otherwise'.toList)) type? type?'
  | .subquery nested => fun node => ∃ nested', node = .subquery nested' ∧ nested.Matches nested'
  | .selection aliasName position type? => fun node => node = .selection aliasName position type?
  | .instantiation target arguments => fun node =>
    ∃ arguments', node = .instantiation target arguments' ∧ argumentsMatch arguments arguments'

def AttributeReference.Matches : AttributeReference → AttributeReference → Prop
  | .mk source declared type => fun node =>
    ∃ source', node = .mk source' declared type ∧ source.Matches source'

def PathSource.Matches : PathSource → PathSource → Prop
  | .element bound => fun node => node = .element (image bound)
  | .indexed attained => fun node => ∃ attained', node = .indexed attained'
      ∧ attained.Matches attained'
  | .reference attained => fun node =>
    ∃ attained', node = .reference attained' ∧ attained.Matches attained'

def IndexedReference.Matches : IndexedReference → IndexedReference → Prop
  | .mk collection index type => fun node =>
    ∃ collection' index', node = .mk collection' index' type
      ∧ collection.Matches collection' ∧ index.Matches index'

def expressionsMatch : List Expression → List Expression → Prop
  | [] => fun nodes => nodes = []
  | expression :: expressions => fun nodes =>
    ∃ expression' expressions', nodes = expression' :: expressions'
      ∧ expression.Matches expression' ∧ expressionsMatch expressions expressions'

def optionalMatches : Option Expression → Option Expression → Prop
  | none => fun node => node = none
  | some expression => fun node =>
    ∃ expression', node = some expression' ∧ expression.Matches expression'

def SimpleWhen.Matches : SimpleWhen → SimpleWhen → Prop
  | .mk value result => fun node =>
    ∃ value' result', node = .mk value' result' ∧ value.Matches value' ∧ result.Matches result'

def simpleWhensMatch : List SimpleWhen → List SimpleWhen → Prop
  | [] => fun nodes => nodes = []
  | branch :: branches => fun nodes =>
    ∃ branch' branches', nodes = branch' :: branches'
      ∧ branch.Matches branch' ∧ simpleWhensMatch branches branches'

def SearchedWhen.Matches : SearchedWhen → SearchedWhen → Prop
  | .mk condition result => fun node =>
    ∃ condition' result', node = .mk condition' result'
      ∧ condition.Matches condition' ∧ result.Matches result'

def searchedWhensMatch : List SearchedWhen → List SearchedWhen → Prop
  | [] => fun nodes => nodes = []
  | branch :: branches => fun nodes =>
    ∃ branch' branches', nodes = branch' :: branches'
      ∧ branch.Matches branch' ∧ searchedWhensMatch branches branches'

def Argument.Matches : Argument → Argument → Prop
  | .mk expression alias? => fun node =>
    ∃ expression', node = .mk expression' alias? ∧ expression.Matches expression'

def argumentsMatch : List Argument → List Argument → Prop
  | [] => fun nodes => nodes = []
  | argument :: arguments => fun nodes =>
    ∃ argument' arguments', nodes = argument' :: arguments'
      ∧ argument.Matches argument' ∧ argumentsMatch arguments arguments'

/-- The second predicate is the first one with the images of its elements. -/
def Predicate.Matches : Predicate → Predicate → Prop
  | .and left right => fun node =>
    ∃ left' right', node = .and left' right' ∧ left.Matches left' ∧ right.Matches right'
  | .or left right => fun node =>
    ∃ left' right', node = .or left' right' ∧ left.Matches left' ∧ right.Matches right'
  | .not inner => fun node => ∃ inner', node = .not inner' ∧ inner.Matches inner'
  | .grouped inner => fun node => ∃ inner', node = .grouped inner' ∧ inner.Matches inner'
  | .comparison operator left right => fun node =>
    ∃ left' right', node = .comparison operator left' right'
      ∧ left.Matches left' ∧ right.Matches right'
  | .between expression lower upper negated => fun node =>
    ∃ expression' lower' upper', node = .between expression' lower' upper' negated
      ∧ expression.Matches expression' ∧ lower.Matches lower' ∧ upper.Matches upper'
  | .like matched pattern escape negated => fun node =>
    ∃ matched' pattern' escape', node = .like matched' pattern' escape' negated
      ∧ matched.Matches matched' ∧ pattern.Matches pattern' ∧ optionalMatches escape escape'
  | .inList expression items negated => fun node =>
    ∃ expression' items', node = .inList expression' items' negated
      ∧ expression.Matches expression' ∧ expressionsMatch items items'
  | .inSubquery expression nested negated => fun node =>
    ∃ expression' nested', node = .inSubquery expression' nested' negated
      ∧ expression.Matches expression' ∧ nested.Matches nested'
  | .isNull expression negated => fun node =>
    ∃ expression', node = .isNull expression' negated ∧ expression.Matches expression'
  | .isEmpty collection negated => fun node =>
    ∃ collection', node = .isEmpty collection' negated ∧ collection.Matches collection'
  | .memberOf plural other negated => fun node =>
    ∃ plural' other', node = .memberOf plural' other' negated
      ∧ plural.Matches plural' ∧ other.Matches other'
  | .existence nested negated => fun node =>
    ∃ nested', node = .existence nested' negated ∧ nested.Matches nested'

def restrictionMatches : Option Predicate → Option Predicate → Prop
  | none => fun node => node = none
  | some predicate => fun node =>
    ∃ predicate', node = some predicate' ∧ predicate.Matches predicate'

/-- The type of a subquery is inferred from its first selection. -/
def Subquery.Matches : Subquery → Subquery → Prop
  | .mk select type? => fun node =>
    ∃ select' type?', node = .mk select' type?' ∧ select.Matches select'
      ∧ Inferred (select.selectionType? 0) (select'.selectionType? 0) type? type?'

def Selection.Matches : Selection → Selection → Prop
  | .mk expression alias? => fun node =>
    ∃ expression', node = .mk expression' alias? ∧ expression.Matches expression'

def selectionsMatch : List Selection → List Selection → Prop
  | [] => fun nodes => nodes = []
  | selection :: selections => fun nodes =>
    ∃ selection' selections', nodes = selection' :: selections'
      ∧ selection.Matches selection' ∧ selectionsMatch selections selections'

def Join.Matches : Join → Join → Prop
  | .mk element restriction => fun node =>
    ∃ restriction', node = .mk (image element) restriction'
      ∧ restrictionMatches restriction restriction'

def joinsMatch : List Join → List Join → Prop
  | [] => fun nodes => nodes = []
  | join :: joins => fun nodes =>
    ∃ join' joins', nodes = join' :: joins' ∧ join.Matches join' ∧ joinsMatch joins joins'

def Space.Matches : Space → Space → Prop
  | .mk root joins => fun node => ∃ joins', node = .mk (image root) joins' ∧ joinsMatch joins joins'

def spacesMatch : List Space → List Space → Prop
  | [] => fun nodes => nodes = []
  | space :: spaces => fun nodes =>
    ∃ space' spaces', nodes = space' :: spaces' ∧ space.Matches space' ∧ spacesMatch spaces spaces'

def SortItem.Matches : SortItem → List Selection → List Selection → SortItem → Prop
  | .mk expression collation order => fun selections selections' node =>
    ∃ expression', node = .mk expression' collation order
      ∧ (expression.Matches expression'
        ∨ expression.MatchesVariable selections selections' expression')

def sortItemsMatch :
    List SortItem → List Selection → List Selection → List SortItem → Prop
  | [] => fun _ _ nodes => nodes = []
  | item :: items => fun selections selections' nodes =>
    ∃ item' items', nodes = item' :: items' ∧ item.Matches selections selections' item'
      ∧ sortItemsMatch items selections selections' items'

def orderMatches :
    Option (List SortItem) → List Selection → List Selection → Option (List SortItem) → Prop
  | none => fun _ _ node => node = none
  | some items => fun selections selections' node =>
    ∃ items', node = some items' ∧ sortItemsMatch items selections selections' items'

/-- The second query is the first one with the images of its elements. -/
def Select.Matches : Select → Select → Prop
  | .mk spaces distinct selections restriction order limit offset => fun node =>
    ∃ spaces' selections' restriction' order' limit' offset',
      node = .mk spaces' distinct selections' restriction' order' limit' offset'
        ∧ spacesMatch spaces spaces' ∧ selectionsMatch selections selections'
        ∧ restrictionMatches restriction restriction'
        ∧ orderMatches order selections selections' order'
        ∧ optionalMatches limit limit' ∧ optionalMatches offset offset'

end

end

/-! ## Trees that match under the identity -/

theorem Expression.eq_of_matchesVariable {selections : List Selection} :
    ∀ {node node' : Expression}, node.MatchesVariable selections selections node' → node' = node
  | .selection _ _ _, _, ⟨_, rfl, htype⟩ => by rw [htype rfl]

mutual

theorem Expression.eq_of_matches :
    ∀ {node : Expression} ⦃node'⦄, node.Matches id node' → node' = node
  | .literal _ => fun _ h => h
  | .parameter _ => fun _ h => h
  | .element _ => fun _ h => h
  | .entityType _ => fun _ h => h
  | .reference _ => fun _ ⟨_, hnode, ha⟩ => by rw [hnode, AttributeReference.eq_of_matches ha]
  | .indexed _ => fun _ ⟨_, hnode, ha⟩ => by rw [hnode, IndexedReference.eq_of_matches ha]
  | .constant _ _ _ => fun _ h => h
  | .mapEntry _ _ _ => fun _ h => h
  | .collectionFunction _ _ _ => fun _ ⟨_, hnode, ha⟩ => by rw [hnode, Expression.eq_of_matches ha]
  | .call _ _ _ _ _ _ => fun _ ⟨_, _, hnode, ha, htype, _⟩ => by
    cases expressions_eq_of_match ha
    rw [hnode, htype rfl]
  | .arithmetic _ _ _ _ => fun _ ⟨_, _, _, hnode, hl, hr, htype⟩ => by
    cases Expression.eq_of_matches hl
    cases Expression.eq_of_matches hr
    rw [hnode, htype rfl]
  | .concatenation _ _ => fun _ ⟨_, _, hnode, hl, hr⟩ => by
    rw [hnode, Expression.eq_of_matches hl, Expression.eq_of_matches hr]
  | .unary _ _ => fun _ ⟨_, hnode, ho⟩ => by rw [hnode, Expression.eq_of_matches ho]
  | .simpleCase _ _ _ _ => fun _ ⟨_, _, _, _, hnode, ho, hw, he, htype⟩ => by
    cases Expression.eq_of_matches ho
    cases simpleWhens_eq_of_match hw
    cases optional_eq_of_matches he
    rw [hnode, htype rfl]
  | .searchedCase _ _ _ => fun _ ⟨_, _, _, hnode, hw, he, htype⟩ => by
    cases searchedWhens_eq_of_match hw
    cases optional_eq_of_matches he
    rw [hnode, htype rfl]
  | .subquery _ => fun _ ⟨_, hnode, hn⟩ => by rw [hnode, Subquery.eq_of_matches hn]
  | .selection _ _ _ => fun _ h => h
  | .instantiation _ _ => fun _ ⟨_, hnode, ha⟩ => by rw [hnode, arguments_eq_of_match ha]

theorem AttributeReference.eq_of_matches :
    ∀ {node : AttributeReference} ⦃node'⦄, node.Matches id node' → node' = node
  | .mk _ _ _ => fun _ ⟨_, hnode, hs⟩ => by rw [hnode, PathSource.eq_of_matches hs]

theorem PathSource.eq_of_matches :
    ∀ {node : PathSource} ⦃node'⦄, node.Matches id node' → node' = node
  | .element _ => fun _ h => h
  | .indexed _ => fun _ ⟨_, hnode, ha⟩ => by rw [hnode, IndexedReference.eq_of_matches ha]
  | .reference _ => fun _ ⟨_, hnode, ha⟩ => by rw [hnode, AttributeReference.eq_of_matches ha]

theorem IndexedReference.eq_of_matches :
    ∀ {node : IndexedReference} ⦃node'⦄, node.Matches id node' → node' = node
  | .mk _ _ _ => fun _ ⟨_, _, hnode, hc, hi⟩ => by
    rw [hnode, AttributeReference.eq_of_matches hc, Expression.eq_of_matches hi]

theorem expressions_eq_of_match :
    ∀ {nodes : List Expression} ⦃nodes'⦄, expressionsMatch id nodes nodes' → nodes' = nodes
  | [] => fun _ h => h
  | _ :: _ => fun _ ⟨_, _, hnode, h, hs⟩ => by
    rw [hnode, Expression.eq_of_matches h, expressions_eq_of_match hs]

theorem optional_eq_of_matches :
    ∀ {node : Option Expression} ⦃node'⦄, optionalMatches id node node' → node' = node
  | none => fun _ h => h
  | some _ => fun _ ⟨_, hnode, h⟩ => by rw [hnode, Expression.eq_of_matches h]

theorem SimpleWhen.eq_of_matches :
    ∀ {node : SimpleWhen} ⦃node'⦄, node.Matches id node' → node' = node
  | .mk _ _ => fun _ ⟨_, _, hnode, hv, hr⟩ => by
    rw [hnode, Expression.eq_of_matches hv, Expression.eq_of_matches hr]

theorem simpleWhens_eq_of_match :
    ∀ {nodes : List SimpleWhen} ⦃nodes'⦄, simpleWhensMatch id nodes nodes' → nodes' = nodes
  | [] => fun _ h => h
  | _ :: _ => fun _ ⟨_, _, hnode, h, hs⟩ => by
    rw [hnode, SimpleWhen.eq_of_matches h, simpleWhens_eq_of_match hs]

theorem SearchedWhen.eq_of_matches :
    ∀ {node : SearchedWhen} ⦃node'⦄, node.Matches id node' → node' = node
  | .mk _ _ => fun _ ⟨_, _, hnode, hc, hr⟩ => by
    rw [hnode, Predicate.eq_of_matches hc, Expression.eq_of_matches hr]

theorem searchedWhens_eq_of_match :
    ∀ {nodes : List SearchedWhen} ⦃nodes'⦄, searchedWhensMatch id nodes nodes' → nodes' = nodes
  | [] => fun _ h => h
  | _ :: _ => fun _ ⟨_, _, hnode, h, hs⟩ => by
    rw [hnode, SearchedWhen.eq_of_matches h, searchedWhens_eq_of_match hs]

theorem Argument.eq_of_matches : ∀ {node : Argument} ⦃node'⦄, node.Matches id node' → node' = node
  | .mk _ _ => fun _ ⟨_, hnode, h⟩ => by rw [hnode, Expression.eq_of_matches h]

theorem arguments_eq_of_match :
    ∀ {nodes : List Argument} ⦃nodes'⦄, argumentsMatch id nodes nodes' → nodes' = nodes
  | [] => fun _ h => h
  | _ :: _ => fun _ ⟨_, _, hnode, h, hs⟩ => by
    rw [hnode, Argument.eq_of_matches h, arguments_eq_of_match hs]

theorem Predicate.eq_of_matches : ∀ {node : Predicate} ⦃node'⦄, node.Matches id node' → node' = node
  | .and _ _ => fun _ ⟨_, _, hnode, hl, hr⟩ => by
    rw [hnode, Predicate.eq_of_matches hl, Predicate.eq_of_matches hr]
  | .or _ _ => fun _ ⟨_, _, hnode, hl, hr⟩ => by
    rw [hnode, Predicate.eq_of_matches hl, Predicate.eq_of_matches hr]
  | .not _ => fun _ ⟨_, hnode, hi⟩ => by rw [hnode, Predicate.eq_of_matches hi]
  | .grouped _ => fun _ ⟨_, hnode, hi⟩ => by rw [hnode, Predicate.eq_of_matches hi]
  | .comparison _ _ _ => fun _ ⟨_, _, hnode, hl, hr⟩ => by
    rw [hnode, Expression.eq_of_matches hl, Expression.eq_of_matches hr]
  | .between _ _ _ _ => fun _ ⟨_, _, _, hnode, he, hl, hu⟩ => by
    rw [hnode, Expression.eq_of_matches he, Expression.eq_of_matches hl,
      Expression.eq_of_matches hu]
  | .like _ _ _ _ => fun _ ⟨_, _, _, hnode, hm, hp, he⟩ => by
    rw [hnode, Expression.eq_of_matches hm, Expression.eq_of_matches hp, optional_eq_of_matches he]
  | .inList _ _ _ => fun _ ⟨_, _, hnode, he, hi⟩ => by
    rw [hnode, Expression.eq_of_matches he, expressions_eq_of_match hi]
  | .inSubquery _ _ _ => fun _ ⟨_, _, hnode, he, hn⟩ => by
    rw [hnode, Expression.eq_of_matches he, Subquery.eq_of_matches hn]
  | .isNull _ _ => fun _ ⟨_, hnode, he⟩ => by rw [hnode, Expression.eq_of_matches he]
  | .isEmpty _ _ => fun _ ⟨_, hnode, hc⟩ => by rw [hnode, AttributeReference.eq_of_matches hc]
  | .memberOf _ _ _ => fun _ ⟨_, _, hnode, hp, ho⟩ => by
    rw [hnode, AttributeReference.eq_of_matches hp, Expression.eq_of_matches ho]
  | .existence _ _ => fun _ ⟨_, hnode, hn⟩ => by rw [hnode, Subquery.eq_of_matches hn]

theorem restriction_eq_of_matches :
    ∀ {node : Option Predicate} ⦃node'⦄, restrictionMatches id node node' → node' = node
  | none => fun _ h => h
  | some _ => fun _ ⟨_, hnode, h⟩ => by rw [hnode, Predicate.eq_of_matches h]

theorem Subquery.eq_of_matches : ∀ {node : Subquery} ⦃node'⦄, node.Matches id node' → node' = node
  | .mk _ _ => fun _ ⟨_, _, hnode, hs, htype⟩ => by
    cases Select.eq_of_matches hs
    rw [hnode, htype rfl]

theorem Selection.eq_of_matches : ∀ {node : Selection} ⦃node'⦄, node.Matches id node' → node' = node
  | .mk _ _ => fun _ ⟨_, hnode, h⟩ => by rw [hnode, Expression.eq_of_matches h]

theorem selections_eq_of_match :
    ∀ {nodes : List Selection} ⦃nodes'⦄, selectionsMatch id nodes nodes' → nodes' = nodes
  | [] => fun _ h => h
  | _ :: _ => fun _ ⟨_, _, hnode, h, hs⟩ => by
    rw [hnode, Selection.eq_of_matches h, selections_eq_of_match hs]

theorem Join.eq_of_matches : ∀ {node : Join} ⦃node'⦄, node.Matches id node' → node' = node
  | .mk _ _ => fun _ ⟨_, hnode, hr⟩ => by rw [hnode, restriction_eq_of_matches hr]; rfl

theorem joins_eq_of_match :
    ∀ {nodes : List Join} ⦃nodes'⦄, joinsMatch id nodes nodes' → nodes' = nodes
  | [] => fun _ h => h
  | _ :: _ => fun _ ⟨_, _, hnode, h, hs⟩ => by
    rw [hnode, Join.eq_of_matches h, joins_eq_of_match hs]

theorem Space.eq_of_matches : ∀ {node : Space} ⦃node'⦄, node.Matches id node' → node' = node
  | .mk _ _ => fun _ ⟨_, hnode, hj⟩ => by rw [hnode, joins_eq_of_match hj]; rfl

theorem spaces_eq_of_match :
    ∀ {nodes : List Space} ⦃nodes'⦄, spacesMatch id nodes nodes' → nodes' = nodes
  | [] => fun _ h => h
  | _ :: _ => fun _ ⟨_, _, hnode, h, hs⟩ => by
    rw [hnode, Space.eq_of_matches h, spaces_eq_of_match hs]

theorem SortItem.eq_of_matches {selections : List Selection} :
    ∀ {node : SortItem} ⦃node'⦄, node.Matches id selections selections node' → node' = node
  | .mk _ _ _ => by
    rintro _ ⟨_, rfl, h | h⟩
    · rw [Expression.eq_of_matches h]
    · rw [Expression.eq_of_matchesVariable h]

theorem sortItems_eq_of_match {selections : List Selection} :
    ∀ {nodes : List SortItem} ⦃nodes'⦄,
      sortItemsMatch id nodes selections selections nodes' → nodes' = nodes
  | [] => fun _ h => h
  | _ :: _ => fun _ ⟨_, _, hnode, h, hs⟩ => by
    rw [hnode, SortItem.eq_of_matches h, sortItems_eq_of_match hs]

theorem order_eq_of_matches {selections : List Selection} :
    ∀ {node : Option (List SortItem)} ⦃node'⦄,
      orderMatches id node selections selections node' → node' = node
  | none => fun _ h => h
  | some _ => fun _ ⟨_, hnode, h⟩ => by rw [hnode, sortItems_eq_of_match h]

/-- A query matches only itself under the identity: nothing of it is left open. -/
theorem Select.eq_of_matches : ∀ {node : Select} ⦃node'⦄, node.Matches id node' → node' = node
  | .mk _ _ _ _ _ _ _ => fun _ ⟨_, _, _, _, _, _, hnode, hf, hs, hr, ho, hl, hp⟩ => by
    cases selections_eq_of_match hs
    rw [hnode, spaces_eq_of_match hf, restriction_eq_of_matches hr, order_eq_of_matches ho,
      optional_eq_of_matches hl, optional_eq_of_matches hp]

end
end EntityQuery.Resolved

import EntityQuery.Proofs.Rebuilding

/-!
# Trees built anew with a state

Elements may be replaced by looking into a state that grows on the way. If what the state gives for
an element never changes, the outcome is that of a replacement without a state: the one that the
final state gives.

* `Replacement`: the states of a replacement and what they give.
* `Carries`: a visit has the outcome that its final state gives.
* `Select.carries`: the traversal of a query does.
* `Select.rebuilt_congr`: only the elements that are mentioned matter.
-/

namespace EntityQuery.Resolved

variable {σ : Type}

/-- The traversal that replaces elements with a state. -/
def replacing (retypes : Bool) (onElement : FromElement → StateM σ FromElement) :
    Traversal (StateM σ) where
  onElement := onElement
  adjustExpression := if retypes then Expression.retyped else id
  adjustSubquery := if retypes then Subquery.retyped else id
  adjustSelect := if retypes then Select.retyped else id

/-- How the state of a replacement grows: what it gives for an element stays. -/
structure Replacement (σ : Type) where
  /-- The elements that may be handed over. -/
  allowed : FromElement → Prop
  good : σ → Prop
  later : σ → σ → Prop
  gives : σ → FromElement → FromElement → Prop
  refl : ∀ state, later state state
  trans : ∀ {before between after}, later before between → later between after → later before after
  mono : ∀ {before after element other}, later before after → gives before element other →
    gives after element other
  unique : ∀ {state element other another}, gives state element other →
    gives state element another → other = another

/-- The replacement of one element is recorded in the state. -/
def Replacement.Records (law : Replacement σ) (onElement : FromElement → StateM σ FromElement) :
    Prop :=
  ∀ element, law.allowed element → ∀ state, law.good state →
    law.good ((onElement element).run state).2
      ∧ law.later state ((onElement element).run state).2
      ∧ law.gives ((onElement element).run state).2 element ((onElement element).run state).1

/-- The outcome of a visit of some leaves is the one that every later state gives. -/
def Carries (law : Replacement σ) {α : Type} (leaves : List Leaf) (visit : StateM σ α)
    (outcome : (FromElement → FromElement) → α) : Prop :=
  (∀ element, .element element ∈ leaves → law.allowed element) → ∀ state, law.good state →
    law.good (visit.run state).2
      ∧ law.later state (visit.run state).2
      ∧ (∀ element, .element element ∈ leaves →
        ∃ other, law.gives (visit.run state).2 element other)
      ∧ ∀ after, law.later (visit.run state).2 after → ∀ replace : FromElement → FromElement,
        (∀ element, .element element ∈ leaves → law.gives after element (replace element)) →
          (visit.run state).1 = outcome replace

section

variable {law : Replacement σ} {α β γ δ : Type} {leaves more others : List Leaf}

/-- Nothing happens at leaves that are no elements. -/
theorem carries_plain (h : ∀ element, Leaf.element element ∉ leaves) (value : α) :
    Carries law leaves (pure value) fun _ => value :=
  fun _ state hgood =>
    ⟨hgood, law.refl state, fun element hmem => absurd hmem (h element), fun _ _ _ _ => rfl⟩

theorem carries_pure (value : α) : Carries law [] (pure value) fun _ => value :=
  carries_plain (fun _ => List.not_mem_nil) value

theorem carries_bind {visit : StateM σ α} {next : α → StateM σ β}
    {outcome : (FromElement → FromElement) → α}
    {result : α → (FromElement → FromElement) → β}
    (h : Carries law leaves visit outcome)
    (hnext : ∀ value, Carries law more (next value) (result value)) :
    Carries law (leaves ++ more) (visit >>= next)
      fun replace => result (outcome replace) replace := by
  intro hallowed state hgood
  obtain ⟨hgood', hlater, hgives, hvalue⟩ :=
    h (fun element hmem => hallowed element (List.mem_append_left _ hmem)) state hgood
  obtain ⟨hgood'', hlater', hgives', hvalue'⟩ := hnext (visit.run state).1
    (fun element hmem => hallowed element (List.mem_append_right _ hmem)) _ hgood'
  refine ⟨hgood'', law.trans hlater hlater', fun element hmem => ?_,
    fun after hafter replace hreplace => ?_⟩
  · rcases List.mem_append.mp hmem with hmem | hmem
    · obtain ⟨other, hother⟩ := hgives element hmem
      exact ⟨other, law.mono hlater' hother⟩
    · exact hgives' element hmem
  · have hfirst := hvalue after (law.trans hlater' hafter) replace
      fun element hmem => hreplace element (List.mem_append_left _ hmem)
    have hsecond := hvalue' after hafter replace
      fun element hmem => hreplace element (List.mem_append_right _ hmem)
    exact hsecond.trans (congrArg (result · replace) hfirst)

theorem carries_of_eq {visit : StateM σ α} {outcome : (FromElement → FromElement) → α}
    (heq : leaves = more) (h : Carries law leaves visit outcome) :
    Carries law more visit outcome :=
  heq ▸ h

theorem carries_one {visit : StateM σ α} {outcome : (FromElement → FromElement) → α}
    (h : Carries law leaves visit outcome) (f : α → β) :
    Carries law leaves (do return f (← visit)) fun replace => f (outcome replace) := by
  refine carries_of_eq (List.append_nil leaves) ?_
  exact carries_bind h fun value => carries_pure (f value)

theorem carries_two {visit : StateM σ α} {next : StateM σ β}
    {outcome : (FromElement → FromElement) → α} {result : (FromElement → FromElement) → β}
    (h : Carries law leaves visit outcome) (h' : Carries law more next result)
    (f : α → β → γ) :
    Carries law (leaves ++ more) (do
      let first ← visit
      let second ← next
      return f first second) fun replace => f (outcome replace) (result replace) :=
  carries_bind h fun first => carries_one h' (f first)

theorem carries_three {visit : StateM σ α} {next : StateM σ β} {last : StateM σ γ}
    {outcome : (FromElement → FromElement) → α} {result : (FromElement → FromElement) → β}
    {final : (FromElement → FromElement) → γ}
    (h : Carries law leaves visit outcome) (h' : Carries law more next result)
    (h'' : Carries law others last final) (f : α → β → γ → δ) :
    Carries law (leaves ++ more ++ others) (do
      let first ← visit
      let second ← next
      let third ← last
      return f first second third)
      fun replace => f (outcome replace) (result replace) (final replace) := by
  rw [List.append_assoc]
  exact carries_bind h fun first => carries_two h' h'' (f first)

theorem carries_element {onElement : FromElement → StateM σ FromElement}
    (h : law.Records onElement) (element : FromElement) :
    Carries law [.element element] (onElement element) fun replace => replace element := by
  intro hallowed state hgood
  obtain ⟨hgood', hlater, hgives⟩ := h element (hallowed element List.mem_cons_self) state hgood
  refine ⟨hgood', hlater, fun other hmem => ?_, fun after hafter replace hreplace => ?_⟩
  · have hsame : other = element := by simpa using hmem
    rw [hsame]
    exact ⟨_, hgives⟩
  · exact law.unique (law.mono hafter hgives) (hreplace element List.mem_cons_self)

end

@[simp] theorem inside_replacing {α : Type} (retypes : Bool)
    (onElement : FromElement → StateM σ FromElement) (kind : NodeKind) (visit : StateM σ α) :
    (replacing retypes onElement).inside kind visit = visit := rfl

section

-- The linter does not see that the members of a mutual block use a hypothesis through each other.
set_option linter.unusedSectionVars false

variable {law : Replacement σ} {retypes : Bool} {onElement : FromElement → StateM σ FromElement}
  (hrecords : law.Records onElement)
include hrecords

mutual

theorem Expression.carries : ∀ node : Expression,
    Carries law node.leaves (node.traverse (replacing retypes onElement))
      fun replace => node.rebuilt retypes replace
  | .literal token => carries_plain (by simp [Expression.leaves]) _
  | .parameter written => carries_plain (by simp [Expression.leaves]) _
  | .element bound => by
    rw [Expression.traverse, inside_replacing]
    exact carries_one (carries_element hrecords bound) _
  | .entityType entity => carries_pure _
  | .reference attained => by
    rw [Expression.traverse, inside_replacing]
    exact carries_one attained.carries _
  | .indexed attained => by
    rw [Expression.traverse, inside_replacing]
    exact carries_one attained.carries _
  | .constant owner member type => carries_pure _
  | .mapEntry function join type? => by
    rw [Expression.traverse, inside_replacing]
    exact carries_one (carries_element hrecords join) _
  | .collectionFunction function argument type? => by
    rw [Expression.traverse, inside_replacing]
    exact carries_one argument.carries _
  | .call name distinct star standard arguments type? => by
    rw [Expression.traverse, inside_replacing, inside_replacing]
    exact carries_one (expressions_carry arguments) _
  | .arithmetic operator left right type? => by
    rw [Expression.traverse, inside_replacing]
    exact carries_two left.carries right.carries _
  | .concatenation left right => by
    rw [Expression.traverse, inside_replacing]
    exact carries_two left.carries right.carries _
  | .unary sign operand => by
    rw [Expression.traverse, inside_replacing]
    exact carries_one operand.carries _
  | .simpleCase operand whens otherwise type? => by
    rw [Expression.traverse, inside_replacing]
    exact carries_three operand.carries (simpleWhens_carry whens) (optional_carries otherwise) _
  | .searchedCase whens otherwise type? => by
    rw [Expression.traverse, inside_replacing]
    exact carries_two (searchedWhens_carry whens) (optional_carries otherwise) _
  | .subquery nested => by
    rw [Expression.traverse, inside_replacing]
    exact carries_one nested.carries _
  | .selection aliasName position type? => carries_pure _
  | .instantiation target arguments => by
    rw [Expression.traverse, inside_replacing, inside_replacing]
    exact carries_one (arguments_carry arguments) _

theorem AttributeReference.carries : ∀ node : AttributeReference,
    Carries law node.leaves (node.traverse (replacing retypes onElement))
      fun replace => node.rebuilt retypes replace
  | .mk source _ _ => by
    rw [AttributeReference.traverse, inside_replacing]
    exact carries_one source.carries _

theorem PathSource.carries : ∀ node : PathSource,
    Carries law node.leaves (node.traverse (replacing retypes onElement))
      fun replace => node.rebuilt retypes replace
  | .element bound => by
    rw [PathSource.traverse]
    exact carries_one (carries_element hrecords bound) _
  | .indexed attained => by
    rw [PathSource.traverse]
    exact carries_one attained.carries _
  | .reference attained => by
    rw [PathSource.traverse]
    exact carries_one attained.carries _

theorem IndexedReference.carries : ∀ node : IndexedReference,
    Carries law node.leaves (node.traverse (replacing retypes onElement))
      fun replace => node.rebuilt retypes replace
  | .mk collection index _ => by
    rw [IndexedReference.traverse, inside_replacing]
    exact carries_two collection.carries index.carries _

theorem expressions_carry : ∀ nodes : List Expression,
    Carries law (expressionLeaves nodes) (traverseExpressions (replacing retypes onElement) nodes)
      fun replace => traverseExpressions (rebuilding retypes replace) nodes
  | [] => carries_pure _
  | node :: nodes => by
    rw [traverseExpressions]
    exact carries_two node.carries (expressions_carry nodes) _

theorem optional_carries : ∀ node : Option Expression,
    Carries law (optionalLeaves node) (traverseOptional (replacing retypes onElement) node)
      fun replace => traverseOptional (rebuilding retypes replace) node
  | none => carries_pure _
  | some node => by
    rw [traverseOptional]
    exact carries_one node.carries _

theorem SimpleWhen.carries : ∀ node : SimpleWhen,
    Carries law node.leaves (node.traverse (replacing retypes onElement))
      fun replace => node.rebuilt retypes replace
  | .mk value result => by
    rw [SimpleWhen.traverse]
    exact carries_two value.carries result.carries _

theorem simpleWhens_carry : ∀ nodes : List SimpleWhen,
    Carries law (simpleWhenLeaves nodes)
      (traverseSimpleWhens (replacing retypes onElement) nodes)
      fun replace => traverseSimpleWhens (rebuilding retypes replace) nodes
  | [] => carries_pure _
  | node :: nodes => by
    rw [traverseSimpleWhens]
    exact carries_two node.carries (simpleWhens_carry nodes) _

theorem SearchedWhen.carries : ∀ node : SearchedWhen,
    Carries law node.leaves (node.traverse (replacing retypes onElement))
      fun replace => node.rebuilt retypes replace
  | .mk condition result => by
    rw [SearchedWhen.traverse]
    exact carries_two condition.carries result.carries _

theorem searchedWhens_carry : ∀ nodes : List SearchedWhen,
    Carries law (searchedWhenLeaves nodes)
      (traverseSearchedWhens (replacing retypes onElement) nodes)
      fun replace => traverseSearchedWhens (rebuilding retypes replace) nodes
  | [] => carries_pure _
  | node :: nodes => by
    rw [traverseSearchedWhens]
    exact carries_two node.carries (searchedWhens_carry nodes) _

theorem Argument.carries : ∀ node : Argument,
    Carries law node.leaves (node.traverse (replacing retypes onElement))
      fun replace => node.rebuilt retypes replace
  | .mk expression _ => by
    rw [Argument.traverse]
    exact carries_one expression.carries _

theorem arguments_carry : ∀ nodes : List Argument,
    Carries law (argumentLeaves nodes) (traverseArguments (replacing retypes onElement) nodes)
      fun replace => traverseArguments (rebuilding retypes replace) nodes
  | [] => carries_pure _
  | node :: nodes => by
    rw [traverseArguments]
    exact carries_two node.carries (arguments_carry nodes) _

theorem Predicate.carries : ∀ node : Predicate,
    Carries law node.leaves (node.traverse (replacing retypes onElement))
      fun replace => node.rebuilt retypes replace
  | .and left right => by
    rw [Predicate.traverse, inside_replacing]
    exact carries_two left.carries right.carries _
  | .or left right => by
    rw [Predicate.traverse, inside_replacing]
    exact carries_two left.carries right.carries _
  | .not inner => by
    rw [Predicate.traverse, inside_replacing]
    exact carries_one inner.carries _
  | .grouped inner => by
    rw [Predicate.traverse, inside_replacing]
    exact carries_one inner.carries _
  | .comparison _ left right => by
    rw [Predicate.traverse, inside_replacing]
    exact carries_two left.carries right.carries _
  | .between expression lower upper _ => by
    rw [Predicate.traverse, inside_replacing]
    exact carries_three expression.carries lower.carries upper.carries _
  | .like matched pattern escape _ => by
    rw [Predicate.traverse, inside_replacing]
    exact carries_three matched.carries pattern.carries (optional_carries escape) _
  | .inList expression items _ => by
    rw [Predicate.traverse, inside_replacing]
    exact carries_two expression.carries (expressions_carry items) _
  | .inSubquery expression nested _ => by
    rw [Predicate.traverse, inside_replacing]
    exact carries_two expression.carries nested.carries _
  | .isNull expression _ => by
    rw [Predicate.traverse, inside_replacing]
    exact carries_one expression.carries _
  | .isEmpty collection _ => by
    rw [Predicate.traverse, inside_replacing]
    exact carries_one collection.carries _
  | .memberOf plural other _ => by
    rw [Predicate.traverse, inside_replacing]
    exact carries_two plural.carries other.carries _
  | .existence nested _ => by
    rw [Predicate.traverse, inside_replacing]
    exact carries_one nested.carries _

theorem restriction_carries : ∀ node : Option Predicate,
    Carries law (restrictionLeaves node) (traverseRestriction (replacing retypes onElement) node)
      fun replace => traverseRestriction (rebuilding retypes replace) node
  | none => carries_pure _
  | some node => by
    rw [traverseRestriction]
    exact carries_one node.carries _

theorem Subquery.carries : ∀ node : Subquery,
    Carries law node.leaves (node.traverse (replacing retypes onElement))
      fun replace => node.rebuilt retypes replace
  | .mk select _ => by
    rw [Subquery.traverse, inside_replacing]
    exact carries_one select.carries _

theorem Selection.carries : ∀ node : Selection,
    Carries law node.leaves (node.traverse (replacing retypes onElement))
      fun replace => node.rebuilt retypes replace
  | .mk expression _ => by
    rw [Selection.traverse, inside_replacing]
    exact carries_one expression.carries _

theorem selections_carry : ∀ nodes : List Selection,
    Carries law (selectionLeaves nodes) (traverseSelections (replacing retypes onElement) nodes)
      fun replace => traverseSelections (rebuilding retypes replace) nodes
  | [] => carries_pure _
  | node :: nodes => by
    rw [traverseSelections]
    exact carries_two node.carries (selections_carry nodes) _

theorem Join.carries : ∀ node : Join,
    Carries law node.leaves (node.traverse (replacing retypes onElement))
      fun replace => node.rebuilt retypes replace
  | .mk element restriction => by
    rw [Join.traverse, inside_replacing]
    exact carries_two (carries_element hrecords element) (restriction_carries restriction) _

theorem joins_carry : ∀ nodes : List Join,
    Carries law (joinLeaves nodes) (traverseJoins (replacing retypes onElement) nodes)
      fun replace => traverseJoins (rebuilding retypes replace) nodes
  | [] => carries_pure _
  | node :: nodes => by
    rw [traverseJoins]
    exact carries_two node.carries (joins_carry nodes) _

theorem Space.carries : ∀ node : Space,
    Carries law node.leaves (node.traverse (replacing retypes onElement))
      fun replace => node.rebuilt retypes replace
  | .mk root joins => by
    rw [Space.traverse, inside_replacing]
    exact carries_two (carries_element hrecords root) (joins_carry joins) _

theorem spaces_carry : ∀ nodes : List Space,
    Carries law (spaceLeaves nodes) (traverseSpaces (replacing retypes onElement) nodes)
      fun replace => traverseSpaces (rebuilding retypes replace) nodes
  | [] => carries_pure _
  | node :: nodes => by
    rw [traverseSpaces]
    exact carries_two node.carries (spaces_carry nodes) _

theorem SortItem.carries : ∀ node : SortItem,
    Carries law node.leaves (node.traverse (replacing retypes onElement))
      fun replace => node.rebuilt retypes replace
  | .mk expression _ _ => by
    rw [SortItem.traverse, inside_replacing]
    exact carries_one expression.carries _

theorem sortItems_carry : ∀ nodes : List SortItem,
    Carries law (sortLeaves nodes) (traverseSortItems (replacing retypes onElement) nodes)
      fun replace => traverseSortItems (rebuilding retypes replace) nodes
  | [] => carries_pure _
  | node :: nodes => by
    rw [traverseSortItems]
    exact carries_two node.carries (sortItems_carry nodes) _

theorem order_carries : ∀ node : Option (List SortItem),
    Carries law (orderLeaves node) (traverseOrder (replacing retypes onElement) node)
      fun replace => traverseOrder (rebuilding retypes replace) node
  | none => carries_pure _
  | some nodes => by
    rw [traverseOrder, inside_replacing]
    exact carries_one (sortItems_carry nodes) _

theorem Select.carries : ∀ node : Select,
    Carries law node.leaves (node.traverse (replacing retypes onElement))
      fun replace => node.rebuilt retypes replace
  | .mk spaces distinct selections restriction order limit offset => by
    have hclauses := carries_three (spaces_carry spaces) (selections_carry selections)
      (restriction_carries restriction) fun spaces selections restriction =>
        (spaces, selections, restriction)
    have hall := carries_bind hclauses fun clauses =>
      carries_three (order_carries order) (optional_carries limit) (optional_carries offset)
        fun order limit offset => (replacing retypes onElement).adjustSelect
          (.mk clauses.1 distinct clauses.2.1 clauses.2.2 order limit offset)
    rw [← List.append_assoc, ← List.append_assoc] at hall
    exact hall

end

end

/-! ## Trees that mention the same elements -/

/-- The replacement of elements without a state. -/
def plainLaw (visit : FromElement → FromElement) : Replacement Unit where
  allowed _ := True
  good _ := True
  later _ _ := True
  gives _ element other := other = visit element
  refl _ := trivial
  trans _ _ := trivial
  mono _ h := h
  unique h h' := h.trans h'.symm

theorem plainLaw_records (visit : FromElement → FromElement) :
    (plainLaw visit).Records fun element => pure (visit element) :=
  fun _ _ _ _ => ⟨trivial, trivial, rfl⟩

variable {visit other : FromElement → FromElement}

/-- Only the elements that are mentioned matter. -/
theorem carries_congr {α : Type} {leaves : List Leaf} {step : StateM Unit α}
    {outcome : (FromElement → FromElement) → α}
    (h : Carries (plainLaw visit) leaves step outcome)
    (hsame : ∀ bound, Leaf.element bound ∈ leaves → visit bound = other bound) :
    outcome visit = outcome other := by
  obtain ⟨-, -, -, hvalue⟩ := h (fun _ _ => trivial) () trivial
  calc outcome visit
      = (step.run ()).1 := (hvalue () trivial visit fun _ _ => rfl).symm
    _ = outcome other := hvalue () trivial other fun bound hbound => (hsame bound hbound).symm

theorem Space.rebuilt_congr {space : Space}
    (h : ∀ bound, Leaf.element bound ∈ space.leaves → visit bound = other bound) :
    space.rebuilt true visit = space.rebuilt true other :=
  carries_congr (Space.carries (plainLaw_records visit) space) h

theorem Select.rebuilt_congr {select : Select}
    (h : ∀ bound, Leaf.element bound ∈ select.leaves → visit bound = other bound) :
    select.rebuilt true visit = select.rebuilt true other :=
  carries_congr (Select.carries (plainLaw_records visit) select) h

end EntityQuery.Resolved

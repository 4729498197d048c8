import EntityQuery.Interpretation.Call
import EntityQuery.Proofs.ImplicitJoins
import EntityQuery.Proofs.Judgement
import EntityQuery.Proofs.Navigation
import EntityQuery.Proofs.OwnMentions

/-!
# What every built tree satisfies

The rules of a tree that was built over a set of registered elements: what is mentioned is
registered and within reach, attributes are declared by what they are taken from, the types that
nodes keep are the ones that follow from their children, and restrictions of joins keep to their
space.

* `FromElement.Within`: every part of the way to an element is in scope.
* `builtRules`: the rules, over the registered elements.
* `builtRules_implies`: registering more elements keeps what was built before.
-/

namespace EntityQuery

/-- Every part of the way to the element is, without its narrowings, in scope. -/
def FromElement.Within (scope : List FromElement) (element : FromElement) : Prop :=
  ∀ part ∈ element.chain, part.unwrapped ∈ scope

theorem FromElement.Within.mono {scope larger : List FromElement} {element : FromElement}
    (h : element.Within scope) (hsub : scope ⊆ larger) : element.Within larger :=
  fun part hpart => hsub (h part hpart)

theorem FromElement.Within.unwrapped_mem {scope : List FromElement} {element : FromElement}
    (h : element.Within scope) : element.unwrapped ∈ scope :=
  h element element.mem_chain_self

theorem FromElement.unwrapped_unwrapped (element : FromElement) :
    element.unwrapped.unwrapped = element.unwrapped := by
  induction element with
  | treated binding wrapped ih => exact ih
  | _ => rfl

/-- An element is within reach where the element that it narrows is. -/
theorem FromElement.within_of_unwrapped {scope : List FromElement} {element : FromElement}
    (h : element.unwrapped.Within scope) : element.Within scope := by
  induction element with
  | treated binding wrapped ih =>
    intro part hpart
    rcases List.mem_cons.mp hpart with rfl | hpart
    · have hmem : wrapped.unwrapped.unwrapped ∈ scope := h.unwrapped_mem
      rw [unwrapped_unwrapped] at hmem
      exact hmem
    · exact ih h part hpart
  | _ => exact h

/-- An attribute is declared under its own name. -/
theorem TypeDescriptor.declared?_name {type : TypeDescriptor} {name : String} {declared : Attribute}
    (h : type.declared? name = some declared) : declared.name = name := by
  cases type with
  | entity entity => exact Keyed.find?_key h
  | composite composite => exact Keyed.find?_key h
  | polymorphic polymorphic =>
    obtain ⟨name', implementors⟩ := polymorphic
    cases implementors with
    | nil => cases h
    | cons first rest =>
      have hdeclared : Polymorphic.declared? ⟨name', first :: rest⟩ name = some declared := h
      have hfirst : first.declared? name = some declared :=
        Polymorphic.declared?_implementor hdeclared first List.mem_cons_self
      exact Keyed.find?_key hfirst
  | basic basic => cases h
  | collection kind element => cases h
  | indexed kind index element => cases h

namespace Resolved

/-! ## Types of nodes -/

/-- The type of what an attribute is taken from. -/
def PathSource.type : PathSource → TypeDescriptor
  | .element bound => bound.type
  | .indexed attained => attained.type
  | .reference attained => attained.type

/-- The type of the source declares the attribute, which has the type that the schema gives it. -/
def AttributeReference.Typed (schema : Schema) (attained : AttributeReference) : Prop :=
  attained.source.type.declared? attained.declared.name = some attained.declared
    ∧ schema.resolve? attained.declared.type = some attained.type

/-- The collection has an index and elements of the type that is kept. -/
def IndexedReference.Typed (attained : IndexedReference) : Prop :=
  attained.collection.type.index?.isSome
    ∧ attained.collection.type.element? = some attained.type

/-- The type of a part of a map. -/
def partType? (map : TypeDescriptor) : MapFunction → Option TypeDescriptor
  | .key => map.index?
  | .value => map.element?
  | .entry => none

/-- The kept type is the one that follows from the children. Result variables are typed by their
query. -/
def Expression.Typed : Expression → Prop
  | .mapEntry function join type? =>
    ∃ through, join.join? = some through ∧ through.type.kind? = some .map
      ∧ type? = partType? through.type function
  | .collectionFunction function argument type? =>
    (∃ collection, argument = .reference collection ∧ collection.isPlural
        ∧ Interpretation.Step.collectionFunctionType function collection.type = .ok type?)
      ∨ (∃ join, function = .index ∧ argument = .element join ∧ type?.isSome
        ∧ join.collection?.bind TypeDescriptor.index? = type?)
  | expression => expression.isVariable = false ∧ expression.retyped = expression

/-- The collection of a predicate on collections is plural. -/
def Predicate.Typed : Predicate → Prop
  | .isEmpty collection _ => collection.isPlural
  | .memberOf plural _ _ => plural.isPlural
  | _ => True

def SortItem.expression : SortItem → Expression
  | .mk expression _ _ => expression

/-- Every result variable of the order stands for the selection at its position, with its alias and
its type. -/
def Select.VariablesTyped (select : Select) : Prop :=
  ∀ items, select.order = some items → ∀ item ∈ items, ∀ aliasName position type?,
    item.expression = .selection aliasName position type? →
      ∃ expression, select.selections[position]? = some (.mk expression (some aliasName))
        ∧ type? = expression.type?

/-- The target of a bulk statement. -/
def Statement.target? : Statement → Option Space
  | .select _ => none
  | .update target _ _ => some target
  | .delete target _ => some target
  | .insert target _ _ => some target

/-- No two elements of the spaces share a variable. -/
def Select.AliasesDistinct (select : Select) : Prop :=
  ((spaceElements select.spaces).map FromElement.aliasName).Nodup

/-- No two selections share an alias, and a selection agrees with every element of the spaces whose
variable is its alias. -/
def Select.AliasesAgree (agree : FromElement → Option TypeDescriptor → Prop) (select : Select) :
    Prop :=
  (select.selections.filterMap Selection.alias?).Nodup
    ∧ ∀ selection ∈ select.selections, ∀ element ∈ spaceElements select.spaces,
      selection.alias? = some element.aliasName → agree element selection.expression.type?

/-- A selection that has the type of an element agrees with it. -/
def SameType (element : FromElement) (type? : Option TypeDescriptor) : Prop :=
  type? = some element.type

/-! ## The rules -/

/-- The rules of a tree built over registered elements. Variables are known to be distinct, and
selections to agree with the elements that they are named after, only where the query declares no
variable that looks like a made-up one. -/
def builtRules (schema : Schema) (clean : Prop) (registered : List FromElement) : Rules where
  element scope bound := bound ∈ registered ∧ bound.Within scope
  reference attained := attained.Typed schema ∧ attained.InPlace
  indexed attained := attained.Typed
  expression node := node.Typed
  predicate node := node.Typed
  subquery node := node.retyped = node
  select node := node.VariablesTyped ∧ (clean → node.AliasesDistinct)
    ∧ (clean → node.AliasesAgree SameType) ∧ node.Secluded
    ∧ ∀ space ∈ node.spaces, FromElement.Trailing space.elements

/-- What was built keeps meeting the rules when elements are registered. -/
theorem builtRules_implies {schema : Schema} {clean : Prop} {registered more : List FromElement}
    (hsub : registered ⊆ more) :
    (builtRules schema clean registered).Implies (builtRules schema clean more) where
  element := fun hscope ⟨hbound, hwithin⟩ => ⟨hsub hbound, hwithin.mono hscope⟩
  reference := id
  indexed := id
  expression := id
  predicate := id
  subquery := id
  select := id

end Resolved
end EntityQuery

import EntityQuery.Domain.TypeDescriptor
import EntityQuery.Phrase.Operator

/-!
# From elements

A from element is what an identification variable stands for: the root of a space, a join, or one
of these narrowed to an entity. Elements are told apart by their number. A join holds the element
that it starts from and a narrowed element the one it narrows, so that every element carries the
whole way it was reached by.
-/

namespace EntityQuery

/-- What every from element has: a number, a variable, whether the variable was made up, and the
type of the values that the variable takes. -/
structure Binding where
  uid : Nat
  aliasName : String
  generated : Bool
  type : TypeDescriptor
  deriving DecidableEq, Repr

/-- How a join leads through an attribute of its source. -/
structure AttributeJoin where
  declared : Attribute
  /-- The type of the attribute: the whole collection where it is plural. -/
  type : TypeDescriptor
  joinType : JoinType
  fetched : Bool
  /-- The join was made for a path and not written as a join. -/
  implicit : Bool
  /-- The path that the join was made for. -/
  path : String
  deriving DecidableEq, Repr

inductive FromElement where
  | root (binding : Binding)
  | crossJoin (binding : Binding)
  | entityJoin (binding : Binding) (joinType : JoinType)
  | attributeJoin (binding : Binding) (source : FromElement) (join : AttributeJoin)
  /-- An element narrowed to an entity. -/
  | treated (binding : Binding) (wrapped : FromElement)
  deriving DecidableEq, Repr

/-- The number of an element as it is written. -/
def uidText (uid : Nat) : String := s!"<uid:{uid}>"

namespace FromElement

def binding : FromElement → Binding
  | root binding => binding
  | crossJoin binding => binding
  | entityJoin binding _ => binding
  | attributeJoin binding _ _ => binding
  | treated binding _ => binding

def uid (element : FromElement) : Nat := element.binding.uid

def aliasName (element : FromElement) : String := element.binding.aliasName

def type (element : FromElement) : TypeDescriptor := element.binding.type

def isRoot : FromElement → Bool
  | root _ => true
  | _ => false

def isPolymorphic (element : FromElement) : Bool := element.type.isPolymorphic

/-- The way through an attribute, if the element is such a join. -/
def join? : FromElement → Option AttributeJoin
  | attributeJoin _ _ join => some join
  | _ => none

def isImplicit (element : FromElement) : Bool := element.join?.any AttributeJoin.implicit

/-- The type of the collection that the element ranges over. -/
def collection? (element : FromElement) : Option TypeDescriptor :=
  (element.join?.map AttributeJoin.type).filter TypeDescriptor.isCollection

/-- The kind of join; every cross join is an inner one. -/
def joinType? : FromElement → Option JoinType
  | crossJoin _ => some .inner
  | entityJoin _ joinType => some joinType
  | attributeJoin _ _ join => some join.joinType
  | _ => none

/-- The element without its narrowings. -/
def unwrapped : FromElement → FromElement
  | treated _ wrapped => wrapped.unwrapped
  | element => element

/-- The element with all that it was reached by, nearest first. -/
def chain : FromElement → List FromElement
  | attributeJoin binding source join => attributeJoin binding source join :: source.chain
  | treated binding wrapped => treated binding wrapped :: wrapped.chain
  | element => [element]

/-- The element as it is named in messages. -/
def text (element : FromElement) : String :=
  s!"{element.type.text} {element.aliasName} ({uidText element.uid})"

theorem mem_chain_self (element : FromElement) : element ∈ element.chain := by
  cases element <;> simp [chain]

theorem unwrapped_mem_chain (element : FromElement) : element.unwrapped ∈ element.chain := by
  induction element with
  | treated binding wrapped ih => exact List.mem_cons_of_mem _ ih
  | _ => exact mem_chain_self _

end FromElement
end EntityQuery

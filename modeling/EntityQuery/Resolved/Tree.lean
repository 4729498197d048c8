import EntityQuery.Domain.HostClass
import EntityQuery.Resolved.Catalogue
import EntityQuery.Resolved.FromElement
import EntityQuery.Resolved.Value

/-!
# Resolved queries

A resolved query has the shape of the phrase that it was made from. Every name in it stands for
what it was found to mean, and the types that follow from the operands are kept in the nodes.
-/

namespace EntityQuery.Resolved

/-- What an instantiation makes. -/
inductive Target where
  | list
  | map
  | hostClass (hostClass : HostClass)
  deriving DecidableEq, Repr

mutual

inductive Expression where
  | literal (literal : Literal)
  | parameter (parameter : Phrase.Parameter)
  /-- An identification variable used as a value. -/
  | element (element : FromElement)
  /-- The name of an entity used as a value. -/
  | entityType (entity : EntityReference)
  | reference (reference : AttributeReference)
  | indexed (reference : IndexedReference)
  /-- A static field or a variant of a host class. -/
  | constant (owner : HostClass) (member : String) (type : BasicType)
  /-- The key, the value or the entry of a join over a map. -/
  | mapEntry (function : MapFunction) (join : FromElement) (type? : Option TypeDescriptor)
  | collectionFunction (function : CollectionFunction) (argument : Expression)
      (type? : Option TypeDescriptor)
  /-- A call; without a type where the function is not a standard one. -/
  | call (name : String) (distinct star standard : Bool) (arguments : List Expression)
      (type? : Option TypeDescriptor)
  | arithmetic (operator : ArithmeticOperator) (left right : Expression)
      (type? : Option TypeDescriptor)
  | concatenation (left right : Expression)
  | unary (sign : Sign) (operand : Expression)
  | simpleCase (operand : Expression) (whens : List SimpleWhen) (otherwise : Option Expression)
      (type? : Option TypeDescriptor)
  | searchedCase (whens : List SearchedWhen) (otherwise : Option Expression)
      (type? : Option TypeDescriptor)
  | subquery (subquery : Subquery)
  /-- A result variable in an order, with its position in the selection. -/
  | selection (aliasName : String) (position : Nat) (type? : Option TypeDescriptor)
  | instantiation (target : Target) (arguments : List Argument)

/-- An attribute with what it is taken from and its type. -/
inductive AttributeReference where
  | mk (source : PathSource) (declared : Attribute) (type : TypeDescriptor)

/-- What an attribute is taken from. -/
inductive PathSource where
  | element (element : FromElement)
  | indexed (reference : IndexedReference)
  | reference (reference : AttributeReference)

/-- An element of an indexed collection. -/
inductive IndexedReference where
  | mk (collection : AttributeReference) (index : Expression) (type : TypeDescriptor)

inductive SimpleWhen where
  | mk (value result : Expression)

inductive SearchedWhen where
  | mk (condition : Predicate) (result : Expression)

/-- An argument of an instantiation. -/
inductive Argument where
  | mk (expression : Expression) (alias? : Option String)

inductive Predicate where
  | and (left right : Predicate)
  | or (left right : Predicate)
  | not (inner : Predicate)
  | grouped (inner : Predicate)
  | comparison (operator : ComparisonOperator) (left right : Expression)
  | between (expression lower upper : Expression) (negated : Bool)
  | like (matched pattern : Expression) (escape : Option Expression) (negated : Bool)
  | inList (expression : Expression) (items : List Expression) (negated : Bool)
  | inSubquery (expression : Expression) (subquery : Subquery) (negated : Bool)
  | isNull (expression : Expression) (negated : Bool)
  | isEmpty (collection : AttributeReference) (negated : Bool)
  | memberOf (plural : AttributeReference) (other : Expression) (negated : Bool)
  | existence (subquery : Subquery) (negated : Bool)

/-- A query used as a value, with the type of its first selection. -/
inductive Subquery where
  | mk (select : Select) (type? : Option TypeDescriptor)

/-- A selected expression with its result variable. -/
inductive Selection where
  | mk (expression : Expression) (alias? : Option String)

/-- A join of a space with its restriction. -/
inductive Join where
  | mk (element : FromElement) (restriction : Option Predicate)

/-- A root with the joins that hang off it. -/
inductive Space where
  | mk (root : FromElement) (joins : List Join)

inductive SortItem where
  | mk (expression : Expression) (collation : Option String) (order : SortOrder)

/-- A query with its clauses: spaces, selections, restriction, order, limit and offset. -/
inductive Select where
  | mk (spaces : List Space) (distinct : Bool) (selections : List Selection)
      (restriction : Option Predicate) (order : Option (List SortItem))
      (limit offset : Option Expression)

end

structure Assignment where
  target : AttributeReference
  value : Expression

inductive Statement where
  | select (select : Select)
  | update (target : Space) (assignments : List Assignment) (restriction : Option Predicate)
  | delete (target : Space) (restriction : Option Predicate)
  | insert (target : Space) (stateFields : List AttributeReference) (select : Select)

/-! ## Parts -/

namespace Join

def element : Join → FromElement
  | mk element _ => element

def restriction : Join → Option Predicate
  | mk _ restriction => restriction

end Join

namespace Space

def root : Space → FromElement
  | mk root _ => root

def joins : Space → List Join
  | mk _ joins => joins

/-- The root and the joined elements. -/
def elements (space : Space) : List FromElement := space.root :: space.joins.map Join.element

end Space

namespace Selection

def expression : Selection → Expression
  | mk expression _ => expression

def alias? : Selection → Option String
  | mk _ alias? => alias?

end Selection

namespace Select

def spaces : Select → List Space
  | mk spaces _ _ _ _ _ _ => spaces

def selections : Select → List Selection
  | mk _ _ selections _ _ _ _ => selections

def order : Select → Option (List SortItem)
  | mk _ _ _ _ order _ _ => order

/-- The roots of all spaces. -/
def roots (select : Select) : List FromElement := select.spaces.map Space.root

end Select

namespace Subquery

def select : Subquery → Select
  | mk select _ => select

def type? : Subquery → Option TypeDescriptor
  | mk _ type? => type?

end Subquery

namespace AttributeReference

def source : AttributeReference → PathSource
  | mk source _ _ => source

def declared : AttributeReference → Attribute
  | mk _ declared _ => declared

def type : AttributeReference → TypeDescriptor
  | mk _ _ type => type

def isPlural (reference : AttributeReference) : Bool := reference.type.isCollection

end AttributeReference

namespace IndexedReference

def collection : IndexedReference → AttributeReference
  | mk collection _ _ => collection

def index : IndexedReference → Expression
  | mk _ index _ => index

def type : IndexedReference → TypeDescriptor
  | mk _ _ type => type

end IndexedReference

mutual

/-- The from element that an attribute is reached from. -/
def AttributeReference.sourceElement : AttributeReference → FromElement
  | .mk source _ _ => source.sourceElement

/-- The from element that a source is reached from. -/
def PathSource.sourceElement : PathSource → FromElement
  | .element element => element
  | .indexed reference => reference.sourceElement
  | .reference reference => reference.sourceElement

/-- The from element that an indexed collection is reached from. -/
def IndexedReference.sourceElement : IndexedReference → FromElement
  | .mk collection _ _ => collection.sourceElement

end

namespace Predicate

/-- The predicate is written with a negation of its own. -/
def isNegated : Predicate → Bool
  | not _ => true
  | between _ _ _ negated => negated
  | like _ _ _ negated => negated
  | inList _ _ negated => negated
  | inSubquery _ _ negated => negated
  | isNull _ negated => negated
  | isEmpty _ negated => negated
  | memberOf _ _ negated => negated
  | existence _ negated => negated
  | _ => false

end Predicate
end EntityQuery.Resolved

/-!
# Declared types

An attribute declares its type by name, so that entities may refer to each other in cycles.
Collections hold an element type and, where there are positions or keys, an index type.
-/

namespace EntityQuery

/-- A scalar type; a name stands for any scalar that the host defines. -/
inductive BasicType where
  | string
  | character
  | boolean
  | integer
  | long
  | bigInteger
  | float
  | double
  | bigDecimal
  | date
  | time
  | timestamp
  | named (name : String)
  deriving DecidableEq, Repr

namespace BasicType

/-- The place of a numeric type in the order of promotion. -/
def rank? : BasicType → Option Nat
  | integer => some 1
  | long => some 2
  | bigInteger => some 3
  | bigDecimal => some 4
  | float => some 5
  | double => some 6
  | _ => none

def isNumeric (basic : BasicType) : Bool := basic.rank?.isSome

/-- The type as it is named in messages. -/
def text : BasicType → String
  | string => "String"
  | character => "Character"
  | boolean => "Boolean"
  | integer => "Integer"
  | long => "Long"
  | bigInteger => "BigInteger"
  | float => "Float"
  | double => "Double"
  | bigDecimal => "BigDecimal"
  | date => "Date"
  | time => "Time"
  | timestamp => "Timestamp"
  | named name => name

end BasicType

/-- The kind of a collection. -/
inductive CollectionKind where
  | bag
  | set
  | list
  | map
  deriving DecidableEq, Repr

namespace CollectionKind

/-- The kind as it is named in messages. -/
def text : CollectionKind → String
  | bag => "Bag"
  | set => "Set"
  | list => "List"
  | map => "Map"

end CollectionKind

/-- The declared type of an attribute. -/
inductive ValueType where
  | basic (basic : BasicType)
  | entity (name : String)
  | composite (name : String)
  /-- A collection that declares no index type. -/
  | collection (kind : CollectionKind) (element : ValueType)
  /-- A collection that declares the type of its positions or keys. -/
  | indexed (kind : CollectionKind) (index element : ValueType)
  deriving DecidableEq, Repr

namespace ValueType

def bag (element : ValueType) : ValueType := .collection .bag element

def set (element : ValueType) : ValueType := .collection .set element

/-- Lists are indexed by position. -/
def list (element : ValueType) : ValueType := .indexed .list (.basic .integer) element

def map (key element : ValueType) : ValueType := .indexed .map key element

def isCollection : ValueType → Bool
  | collection .. => true
  | indexed .. => true
  | _ => false

/-- The collection has an index type or none. -/
def ofParts (kind : CollectionKind) : Option ValueType → ValueType → ValueType
  | some index, element => .indexed kind index element
  | none, element => .collection kind element

end ValueType

/-- A named attribute with its declared type. -/
structure Attribute where
  name : String
  type : ValueType
  deriving DecidableEq, Repr

namespace Attribute

/-- The attribute holds a collection. -/
def isPlural (declared : Attribute) : Bool := declared.type.isCollection

end Attribute
end EntityQuery

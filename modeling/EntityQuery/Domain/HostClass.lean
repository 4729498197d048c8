import EntityQuery.Domain.Keyed
import EntityQuery.Domain.ValueType

/-!
# Host classes

A query may name a constant of a class of the host. The host describes the class by the variants
of an enumeration and by its static fields with their types.
-/

namespace EntityQuery

inductive ClassKind where
  | plain
  | enumeration
  deriving DecidableEq, Repr

/-- A static field of a class. -/
structure Constant where
  name : String
  type : BasicType
  deriving DecidableEq, Repr

/-- A class that the host knows by name. -/
structure HostClass where
  name : String
  kind : ClassKind
  variants : List String
  constants : List Constant
  deriving DecidableEq, Repr

namespace HostClass

/-- The type of a member: a variant has the type that the enumeration names, a field its declared
type. Variants of a plain class are no members. -/
def member? (hostClass : HostClass) (name : String) : Option BasicType :=
  if hostClass.kind == .enumeration && hostClass.variants.contains name then
    some (.named hostClass.name)
  else (Keyed.find? Constant.name name hostClass.constants).map Constant.type

/-- What is said where no class has a name. -/
def absenceText (name : String) : String := s!"Class not found: {name}"

end HostClass
end EntityQuery

import EntityQuery.Domain.HostClass
import EntityQuery.Domain.TypeDescriptor

/-!
# Schemas

A schema is all that the interpretation of a query asks of the domain: what an entity name and a
class name refer to, what a declared type resolves to, and whether the strict language is in
force. Its answers depend on the question only.
-/

namespace EntityQuery

/-- The view of a domain that a query is interpreted in. -/
structure Schema where
  entity? : String → Option EntityReference
  class? : String → Option HostClass
  resolve? : ValueType → Option TypeDescriptor
  strict : Bool

namespace Schema

/-- The schema with the strict language switched on or off. -/
def withStrict (schema : Schema) (strict : Bool) : Schema := { schema with strict := strict }

/-- The managed type that a declared type names directly. -/
def managedName? : ValueType → Option String
  | .entity name => some name
  | .composite name => some name
  | _ => none

/-- The schema that does not resolve the managed types of the given names where a declared type
names one directly. -/
def without (names : List String) (schema : Schema) : Schema :=
  { schema with
    resolve? := fun type =>
      match managedName? type with
      | some name => if names.contains name then none else schema.resolve? type
      | none => schema.resolve? type }

end Schema
end EntityQuery

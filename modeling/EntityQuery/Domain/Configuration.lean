import EntityQuery.Domain.HostClass
import EntityQuery.Domain.TypeDescriptor

/-!
# Configurations

A configuration lists the entities, composites, polymorphic names and classes of a domain, before
it is known whether they fit together.
-/

namespace EntityQuery

/-- A polymorphic name with the names of its implementors. -/
structure PolymorphicDeclaration where
  name : String
  implementors : List String
  deriving DecidableEq, Repr

/-- The description of a domain. -/
structure Configuration where
  strict : Bool := false
  entities : List Entity := []
  composites : List Composite := []
  polymorphic : List PolymorphicDeclaration := []
  classes : List HostClass := []
  deriving DecidableEq, Repr

namespace Configuration

def empty : Configuration := {}

def withEntity (configuration : Configuration) (entity : Entity) : Configuration :=
  { configuration with entities := configuration.entities ++ [entity] }

def withComposite (configuration : Configuration) (composite : Composite) : Configuration :=
  { configuration with composites := configuration.composites ++ [composite] }

def withPolymorphic (configuration : Configuration) (declaration : PolymorphicDeclaration) :
    Configuration :=
  { configuration with polymorphic := configuration.polymorphic ++ [declaration] }

def withClass (configuration : Configuration) (hostClass : HostClass) : Configuration :=
  { configuration with classes := configuration.classes ++ [hostClass] }

def withStrict (configuration : Configuration) (strict : Bool) : Configuration :=
  { configuration with strict := strict }

end Configuration

/-- The attributes in the order of first declaration, a later type replacing an earlier one. -/
def Attribute.table (attributes : List Attribute) : List Attribute :=
  Keyed.ofList Attribute.name attributes

/-- The constants in the order of first declaration, a later type replacing an earlier one. -/
def Constant.table (constants : List Constant) : List Constant :=
  Keyed.ofList Constant.name constants

end EntityQuery

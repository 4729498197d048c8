import EntityQuery.Domain.Keyed
import EntityQuery.Domain.ValueType

/-!
# Resolved types

A resolved type carries the descriptors of the managed types that it names. Attributes of managed
types are looked up here; a polymorphic name declares the attributes on which all its implementors
agree.
-/

namespace EntityQuery

/-- A mapped entity with its attributes in the order of declaration. -/
structure Entity where
  name : String
  attributes : List Attribute
  deriving DecidableEq, Repr

/-- An embeddable value with attributes of its own. -/
structure Composite where
  name : String
  attributes : List Attribute
  deriving DecidableEq, Repr

/-- A name that several mapped entities implement and that is mapped by none itself. -/
structure Polymorphic where
  name : String
  implementors : List Entity
  deriving DecidableEq, Repr

namespace Entity

def declared? (entity : Entity) (name : String) : Option Attribute :=
  Keyed.find? Attribute.name name entity.attributes

end Entity

namespace Composite

def declared? (composite : Composite) (name : String) : Option Attribute :=
  Keyed.find? Attribute.name name composite.attributes

end Composite

namespace Polymorphic

/-- The attribute that every implementor declares with the same type. -/
def declared? (polymorphic : Polymorphic) (name : String) : Option Attribute :=
  match polymorphic.implementors with
  | [] => none
  | first :: rest =>
    match first.declared? name with
    | none => none
    | some declared =>
      if rest.all fun entity => entity.declared? name == some declared then some declared
      else none

/-- An attribute of a polymorphic name is declared by each implementor. -/
theorem declared?_implementor {polymorphic : Polymorphic} {name : String} {declared : Attribute}
    (h : polymorphic.declared? name = some declared) :
    ∀ entity ∈ polymorphic.implementors, entity.declared? name = some declared := by
  unfold declared? at h
  split at h
  · cases h
  · rename_i first rest himpl
    split at h
    · cases h
    · rename_i found hfound
      split at h
      · rename_i hall
        cases h
        intro entity hentity
        rw [himpl] at hentity
        rcases List.mem_cons.mp hentity with rfl | hentity
        · exact hfound
        · exact eq_of_beq (List.all_eq_true.mp hall entity hentity)
      · cases h

end Polymorphic

/-- A resolved type. -/
inductive TypeDescriptor where
  | basic (basic : BasicType)
  | entity (entity : Entity)
  | polymorphic (polymorphic : Polymorphic)
  | composite (composite : Composite)
  /-- A collection without an index type. -/
  | collection (kind : CollectionKind) (element : TypeDescriptor)
  /-- A collection with positions or keys. -/
  | indexed (kind : CollectionKind) (index element : TypeDescriptor)
  deriving DecidableEq, Repr

namespace TypeDescriptor

/-- The attribute that a managed type declares under a name. -/
def declared? : TypeDescriptor → String → Option Attribute
  | entity e, name => e.declared? name
  | polymorphic p, name => p.declared? name
  | composite c, name => c.declared? name
  | _, _ => none

/-- The type of the positions or keys of a collection. -/
def index? : TypeDescriptor → Option TypeDescriptor
  | indexed _ index _ => some index
  | _ => none

/-- The type of the elements of a collection. -/
def element? : TypeDescriptor → Option TypeDescriptor
  | collection _ element => some element
  | indexed _ _ element => some element
  | _ => none

def kind? : TypeDescriptor → Option CollectionKind
  | collection kind _ => some kind
  | indexed kind _ _ => some kind
  | _ => none

def basic? : TypeDescriptor → Option BasicType
  | basic b => some b
  | _ => none

def isCollection (type : TypeDescriptor) : Bool := type.element?.isSome

def isBasic (type : TypeDescriptor) : Bool := type.basic?.isSome

/-- The place of a numeric type in the order of promotion. -/
def rank? (type : TypeDescriptor) : Option Nat := type.basic?.bind BasicType.rank?

/-- The type as it is named in messages. -/
def text : TypeDescriptor → String
  | basic b => b.text
  | entity e => e.name
  | polymorphic p => p.name
  | composite c => c.name
  | collection kind element => s!"{kind.text}<{element.text}>"
  | indexed kind _ element => s!"{kind.text}<{element.text}>"

/-- The type names a polymorphic entity, directly. -/
def isPolymorphic : TypeDescriptor → Bool
  | polymorphic _ => true
  | _ => false

end TypeDescriptor

/-- What an entity name refers to. -/
inductive EntityReference where
  | mapped (entity : Entity)
  | polymorphic (polymorphic : Polymorphic)
  deriving DecidableEq, Repr

namespace EntityReference

def name : EntityReference → String
  | mapped e => e.name
  | polymorphic p => p.name

def isPolymorphic : EntityReference → Bool
  | mapped _ => false
  | polymorphic _ => true

def type : EntityReference → TypeDescriptor
  | mapped e => .entity e
  | polymorphic p => .polymorphic p

@[simp] theorem isPolymorphic_type (reference : EntityReference) :
    reference.type.isPolymorphic = reference.isPolymorphic := by
  cases reference <;> rfl

@[simp] theorem text_type (reference : EntityReference) : reference.type.text = reference.name := by
  cases reference <;> rfl

end EntityReference
end EntityQuery

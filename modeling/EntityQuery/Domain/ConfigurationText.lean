import EntityQuery.Domain.Configuration
import EntityQuery.Json.Reader

/-!
# Configurations as JSON

A record is written as an object; it may also be given as the array of its fields in order. Unknown
members are passed over, a repeated member is refused, and a member that has a default may be left
out. An alternative is an object with one member, or its bare name if it holds nothing.

Reading is bounded in depth: `allowance` counts the objects and arrays that may still be entered.

* `Configuration.ofJson?` and `Configuration.toJson`.
-/

namespace EntityQuery

namespace Json

/-- The depth to which a text may nest objects and arrays. -/
def depthLimit : Nat := 128

/-- The value of a field among the members of an object; `none` if the field is repeated. -/
def field? (members : List (String × Json)) (name : String) : Option (Option Json) :=
  match members.filter fun member => member.1 == name with
  | [] => some none
  | [member] => some (some member.2)
  | _ => none

/-- The fields of a record that is given as an object or as an array. -/
def fields? (names : List String) : Json → Option (List (Option Json))
  | .array items =>
    if names.length < items.length then none
    else some (items.map some ++ List.replicate (names.length - items.length) none)
  | value => do
    let members ← value.members?
    names.mapM (field? members)

/-- The texts of an array of strings. -/
def texts? (value : Json) : Option (List String) := do
  let items ← value.items?
  items.mapM text?

/-- The one member of an object. -/
def single? (value : Json) : Option (String × Json) := do
  let members ← value.members?
  match members with
  | [member] => some member
  | _ => none

/-- Reads a field that may be left out. -/
def withDefault {α : Type} (default : α) (read : Json → Option α) : Option Json → Option α
  | some value => read value
  | none => some default

/-- What remains of an allowance after an object or array is entered. -/
def enter? : Nat → Option Nat
  | allowance + 2 => some (allowance + 1)
  | _ => none

/-- Reads an array whose items take one more level. -/
def list? {α : Type} (read : Nat → Json → Option α) (allowance : Nat) (value : Json) :
    Option (List α) := do
  let inner ← enter? allowance
  let items ← value.items?
  items.mapM (read inner)

end Json

/-! ## Types -/

namespace BasicType

/-- The scalar types that hold nothing, with the names under which they are written. -/
def plainNames : List (String × BasicType) :=
  [("string", .string), ("character", .character), ("boolean", .boolean), ("integer", .integer),
    ("long", .long), ("big_integer", .bigInteger), ("float", .float), ("double", .double),
    ("big_decimal", .bigDecimal), ("date", .date), ("time", .time), ("timestamp", .timestamp)]

def ofJson? (allowance : Nat) (value : Json) : Option BasicType :=
  match value.text? with
  | some name => plainNames.lookup name
  | none => do
    let _ ← Json.enter? allowance
    let (name, content) ← value.single?
    if name = "named" then content.text?.map BasicType.named
    else match content with
      | .null => plainNames.lookup name
      | _ => none

def toJson : BasicType → Json
  | .named name => Json.ofMembers [("named", Json.ofText name)]
  | basic =>
    match plainNames.find? fun entry => entry.2 == basic with
    | some entry => Json.ofText entry.1
    | none => .null

end BasicType

namespace CollectionKind

def written : CollectionKind → String
  | bag => "bag"
  | set => "set"
  | list => "list"
  | map => "map"

def ofName? (name : String) : Option CollectionKind :=
  [bag, set, list, map].find? fun kind => kind.written == name

/-- A kind holds nothing; it may also be written as an object whose member is null. -/
def ofJson? (allowance : Nat) (value : Json) : Option CollectionKind :=
  match value.text? with
  | some name => ofName? name
  | none => do
    let _ ← Json.enter? allowance
    match ← value.single? with
    | (name, .null) => ofName? name
    | _ => none

end CollectionKind

namespace ValueType

def ofJson? : Nat → Json → Option ValueType
  | 0, _ => none
  | 1, _ => none
  | 2, value => do
    let (name, content) ← value.single?
    if name = "basic" then (BasicType.ofJson? 1 content).map ValueType.basic
    else if name = "entity" then content.text?.map ValueType.entity
    else if name = "composite" then content.text?.map ValueType.composite
    else none
  | allowance + 3, value => do
    let (name, content) ← value.single?
    if name = "basic" then (BasicType.ofJson? (allowance + 2) content).map ValueType.basic
    else if name = "entity" then content.text?.map ValueType.entity
    else if name = "composite" then content.text?.map ValueType.composite
    else if name = "collection" then
      match ← content.fields? ["kind", "index", "element"] with
      | [kind, index, element] => do
        let kind ← CollectionKind.ofJson? (allowance + 1) (← kind)
        let element ← ofJson? (allowance + 1) (← element)
        match index with
        | none => some (.collection kind element)
        | some .null => some (.collection kind element)
        | some index => do
          let index ← ofJson? (allowance + 1) index
          some (.indexed kind index element)
      | _ => none
    else none

def toJson : ValueType → Json
  | basic b => Json.ofMembers [("basic", b.toJson)]
  | entity name => Json.ofMembers [("entity", Json.ofText name)]
  | composite name => Json.ofMembers [("composite", Json.ofText name)]
  | collection kind element =>
    Json.ofMembers [("collection", Json.ofMembers
      [("kind", Json.ofText kind.written), ("index", .null), ("element", element.toJson)])]
  | indexed kind index element =>
    Json.ofMembers [("collection", Json.ofMembers
      [("kind", Json.ofText kind.written), ("index", index.toJson), ("element", element.toJson)])]

end ValueType

/-! ## Records -/

namespace Attribute

/-- Reads an object of types by name; a later type replaces an earlier one of that name. -/
def listOfJson? (allowance : Nat) (value : Json) : Option (List Attribute) := do
  let inner ← Json.enter? allowance
  let members ← value.members?
  let attributes ← members.mapM fun member =>
    (ValueType.ofJson? inner member.2).map fun type => (⟨member.1, type⟩ : Attribute)
  some (Attribute.table attributes)

def listToJson (attributes : List Attribute) : Json :=
  Json.ofMembers (attributes.map fun declared => (declared.name, declared.type.toJson))

end Attribute

/-- Reads the name and the attributes of a managed type. -/
def managedOfJson? (allowance : Nat) (value : Json) : Option (String × List Attribute) := do
  let inner ← Json.enter? allowance
  match ← value.fields? ["name", "attributes"] with
  | [name, attributes] => do
    let name ← (← name).text?
    let attributes ← Json.withDefault [] (Attribute.listOfJson? inner) attributes
    some (name, attributes)
  | _ => none

def Entity.ofJson? (allowance : Nat) (value : Json) : Option Entity :=
  (managedOfJson? allowance value).map fun read => ⟨read.1, read.2⟩

def Entity.toJson (entity : Entity) : Json :=
  Json.ofMembers
    [("name", Json.ofText entity.name), ("attributes", Attribute.listToJson entity.attributes)]

def Composite.ofJson? (allowance : Nat) (value : Json) : Option Composite :=
  (managedOfJson? allowance value).map fun read => ⟨read.1, read.2⟩

def Composite.toJson (composite : Composite) : Json :=
  Json.ofMembers
    [("name", Json.ofText composite.name),
      ("attributes", Attribute.listToJson composite.attributes)]

namespace PolymorphicDeclaration

def ofJson? (allowance : Nat) (value : Json) : Option PolymorphicDeclaration := do
  let inner ← Json.enter? allowance
  match ← value.fields? ["name", "implementors"] with
  | [name, implementors] => do
    let name ← (← name).text?
    let _ ← Json.enter? inner
    let implementors ← (← implementors).texts?
    some ⟨name, implementors⟩
  | _ => none

def toJson (declaration : PolymorphicDeclaration) : Json :=
  Json.ofMembers
    [("name", Json.ofText declaration.name),
      ("implementors", Json.ofList Json.ofText declaration.implementors)]

end PolymorphicDeclaration

namespace ClassKind

def written : ClassKind → String
  | plain => "class"
  | enumeration => "enum"

def ofName? (name : String) : Option ClassKind :=
  [plain, enumeration].find? fun kind => kind.written == name

/-- A kind holds nothing; it may also be written as an object whose member is null. -/
def ofJson? (allowance : Nat) (value : Json) : Option ClassKind :=
  match value.text? with
  | some name => ofName? name
  | none => do
    let _ ← Json.enter? allowance
    match ← value.single? with
    | (name, .null) => ofName? name
    | _ => none

end ClassKind

namespace Constant

/-- Reads an object of scalar types by name; a later type replaces an earlier one of that name. -/
def listOfJson? (allowance : Nat) (value : Json) : Option (List Constant) := do
  let inner ← Json.enter? allowance
  let members ← value.members?
  let constants ← members.mapM fun member =>
    (BasicType.ofJson? inner member.2).map fun type => (⟨member.1, type⟩ : Constant)
  some (Constant.table constants)

end Constant

namespace HostClass

def ofJson? (allowance : Nat) (value : Json) : Option HostClass := do
  let inner ← Json.enter? allowance
  match ← value.fields? ["name", "kind", "variants", "constants"] with
  | [name, kind, variants, constants] => do
    let name ← (← name).text?
    let kind ← ClassKind.ofJson? inner (← kind)
    let variants ← Json.withDefault []
      (fun value => (Json.enter? inner).bind fun _ => value.texts?) variants
    let constants ← Json.withDefault [] (Constant.listOfJson? inner) constants
    some ⟨name, kind, variants, constants⟩
  | _ => none

def toJson (hostClass : HostClass) : Json :=
  Json.ofMembers
    [("name", Json.ofText hostClass.name), ("kind", Json.ofText hostClass.kind.written),
      ("variants", Json.ofList Json.ofText hostClass.variants),
      ("constants", Json.ofMembers
        (hostClass.constants.map fun constant => (constant.name, constant.type.toJson)))]

end HostClass

namespace Configuration

/-- Reads a configuration without checking that its names are known. -/
def ofJson? (value : Json) : Option Configuration := do
  let inner ← Json.enter? Json.depthLimit
  match ← value.fields? ["strict_jpa_compliance", "entities", "composites", "polymorphic",
      "classes"] with
  | [strict, entities, composites, polymorphic, classes] => do
    let strict ← Json.withDefault false Json.bool? strict
    let entities ← Json.withDefault [] (Json.list? Entity.ofJson? inner) entities
    let composites ← Json.withDefault [] (Json.list? Composite.ofJson? inner) composites
    let polymorphic ← Json.withDefault [] (Json.list? PolymorphicDeclaration.ofJson? inner)
      polymorphic
    let classes ← Json.withDefault [] (Json.list? HostClass.ofJson? inner) classes
    some ⟨strict, entities, composites, polymorphic, classes⟩
  | _ => none

/-- Reads the text of a configuration. -/
def ofText? (text : String) : Option Configuration :=
  (Json.read? text.toList).bind ofJson?

def toJson (configuration : Configuration) : Json :=
  Json.ofMembers
    [("strict_jpa_compliance", .bool configuration.strict),
      ("entities", Json.ofList Entity.toJson configuration.entities),
      ("composites", Json.ofList Composite.toJson configuration.composites),
      ("polymorphic", Json.ofList PolymorphicDeclaration.toJson configuration.polymorphic),
      ("classes", Json.ofList HostClass.toJson configuration.classes)]

end Configuration
end EntityQuery

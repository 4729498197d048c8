import EntityQuery.Proofs.NamedEntities
import Mathlib.Data.List.Basic

/-!
# Closed models

A configuration declares its types in passes, each over a table that the earlier ones have filled,
and checks the types of attributes at last, when all names are known. What it accepts can be said
without the passes: names are not declared twice, and every name that is used is declared. A model
made so answers for all of its types, whatever is registered later.

* `Configuration.Closed`: no name declared twice, and every name declared that is used.
* `Configuration.described`: the model that a closed configuration stands for.
* `Metamodel.ofConfiguration_ok_iff`: just the closed configurations are accepted, as that model.
* `Metamodel.Closed`: every type of an attribute is known, and every implementor registered.
* `Metamodel.ofConfiguration_closed`: the models that are reached are closed, and a refused change
  leaves them.
* `Metamodel.registerEntity_withEntity`: registering an entity is declaring it, unless a collection
  in the entity names the entity itself.
-/

namespace EntityQuery

/-! ## Closed configurations -/

/-- The type names entities and composites of the given names only, and each map has keys. -/
def ValueType.ClosedOver (entities composites : List String) : ValueType → Prop
  | .basic _ => True
  | .entity name => name ∈ entities
  | .composite name => name ∈ composites
  | .collection kind element => kind ≠ .map ∧ element.ClosedOver entities composites
  | .indexed _ index element =>
    index.ClosedOver entities composites ∧ element.ClosedOver entities composites

/-- The type names the entity, itself or in a collection. -/
def ValueType.Mentions (name : String) : ValueType → Prop
  | .basic _ => False
  | .entity other => other = name
  | .composite _ => False
  | .collection _ element => element.Mentions name
  | .indexed _ index element => index.Mentions name ∨ element.Mentions name

namespace ValueType

variable {entities others composites : List String} {name : String} {type : ValueType}

theorem ClosedOver.mono (hentities : entities ⊆ others) (h : type.ClosedOver entities composites) :
    type.ClosedOver others composites := by
  induction type with
  | basic basic => trivial
  | entity entity => exact hentities h
  | composite composite => exact h
  | collection kind element ih => exact ⟨h.1, ih h.2⟩
  | indexed kind index element ihindex ihelement => exact ⟨ihindex h.1, ihelement h.2⟩

theorem ClosedOver.mentioned (h : type.ClosedOver entities composites)
    (hname : type.Mentions name) : name ∈ entities := by
  induction type with
  | basic basic => exact hname.elim
  | entity entity =>
    cases hname
    exact h
  | composite composite => exact hname.elim
  | collection kind element ih => exact ih h.2 hname
  | indexed kind index element ihindex ihelement =>
    rcases hname with hname | hname
    · exact ihindex h.1 hname
    · exact ihelement h.2 hname

/-- A type that does not mention the last entity is closed without it. -/
theorem ClosedOver.of_append (h : type.ClosedOver (entities ++ [name]) composites)
    (hname : ¬ type.Mentions name) : type.ClosedOver entities composites := by
  induction type with
  | basic basic => trivial
  | entity entity =>
    rcases List.mem_append.mp h with h | h
    · exact h
    · exact absurd (List.mem_singleton.mp h) hname
  | composite composite => exact h
  | collection kind element ih => exact ⟨h.1, ih h.2 hname⟩
  | indexed kind index element ihindex ihelement =>
    exact ⟨ihindex h.1 fun hindex => hname (.inl hindex),
      ihelement h.2 fun helement => hname (.inr helement)⟩

end ValueType

/-- No name is declared twice, and every name that is used is declared. -/
structure Configuration.Closed (configuration : Configuration) : Prop where
  entities : (configuration.entities.map Entity.name).Nodup
  composites : (configuration.composites.map Composite.name).Nodup
  polymorphic : (configuration.polymorphic.map PolymorphicDeclaration.name).Nodup
  unmapped : ∀ declaration ∈ configuration.polymorphic,
    declaration.name ∉ configuration.entities.map Entity.name
  implementors : ∀ declaration ∈ configuration.polymorphic,
    ∀ name ∈ declaration.implementors, name ∈ configuration.entities.map Entity.name
  entityTypes : ∀ entity ∈ configuration.entities, ∀ declared ∈ entity.attributes,
    declared.type.ClosedOver (configuration.entities.map Entity.name)
      (configuration.composites.map Composite.name)
  compositeTypes : ∀ composite ∈ configuration.composites, ∀ declared ∈ composite.attributes,
    declared.type.ClosedOver (configuration.entities.map Entity.name)
      (configuration.composites.map Composite.name)

/-- The polymorphic name with its implementors among the entities. -/
def PolymorphicDeclaration.described (entities : List Entity)
    (declaration : PolymorphicDeclaration) : Polymorphic :=
  ⟨declaration.name, declaration.implementors.filterMap fun name =>
    Keyed.find? Entity.name name entities⟩

/-- The model that a closed configuration stands for. -/
def Configuration.described (configuration : Configuration) : Metamodel where
  entities := configuration.entities
  composites := configuration.composites
  polymorphic :=
    configuration.polymorphic.map (PolymorphicDeclaration.described configuration.entities)
  classes := Keyed.ofList HostClass.name configuration.classes
  strict := configuration.strict

/-! ## Checks of types -/

theorem find?_isSome {α : Type} {key : α → String} {name : String} {entries : List α} :
    (Keyed.find? key name entries).isSome ↔ name ∈ entries.map key := by
  rw [Keyed.find?, List.find?_isSome, List.mem_map]
  simp only [beq_iff_eq]

namespace Metamodel

variable {model grown : Metamodel} {configuration : Configuration} {entity : Entity}

theorem bind_ok_iff {α β : Type} {first : Except MetamodelFault α}
    {second : α → Except MetamodelFault β} {result : β} :
    first >>= second = .ok result ↔ ∃ value, first = .ok value ∧ second value = .ok result := by
  constructor
  · exact bind_ok
  · rintro ⟨value, rfl, h⟩
    exact h

theorem forM_ok_iff {α : Type} {visit : α → Except MetamodelFault Unit} {items : List α} :
    items.forM visit = .ok () ↔ ∀ item ∈ items, visit item = .ok () := by
  induction items with
  | nil => exact iff_of_true rfl fun item hitem => by cases hitem
  | cons item items ih =>
    rw [List.forM_eq_forM, List.forM_cons, bind_ok_iff, List.forall_mem_cons, ← ih]
    constructor
    · rintro ⟨⟨⟩, hitem, hitems⟩
      exact ⟨hitem, hitems⟩
    · rintro ⟨hitem, hitems⟩
      exact ⟨(), hitem, hitems⟩

/-- A type passes its check just if it is closed over the registered names. -/
theorem check_ok_iff {owner : String} {type : ValueType} :
    model.check owner type = .ok () ↔ type.ClosedOver (model.entities.map Entity.name)
      (model.composites.map Composite.name) := by
  induction type with
  | basic basic => exact iff_of_true rfl trivial
  | entity name =>
    rw [check, ValueType.ClosedOver, ← find?_isSome, ← findEntity?]
    split <;> simp_all
  | composite name =>
    rw [check, ValueType.ClosedOver, ← find?_isSome, ← findComposite?]
    split <;> simp_all
  | collection kind element ih =>
    rw [check, ValueType.ClosedOver]
    split <;> simp_all
  | indexed kind index element ihindex ihelement =>
    rw [check, ValueType.ClosedOver, bind_ok_iff, ← ihindex, ← ihelement]
    constructor
    · rintro ⟨⟨⟩, h⟩
      exact h
    · exact fun h => ⟨(), h⟩

theorem checkAttributes_ok_iff {owner : String} {attributes : List Attribute} :
    model.checkAttributes owner attributes = .ok () ↔
      ∀ declared ∈ attributes, declared.type.ClosedOver (model.entities.map Entity.name)
        (model.composites.map Composite.name) := by
  simp only [checkAttributes, forM_ok_iff, check_ok_iff]

theorem checkAll_ok_iff :
    model.checkAll = .ok () ↔
      (∀ entity ∈ model.entities, model.checkAttributes entity.name entity.attributes = .ok ())
        ∧ ∀ composite ∈ model.composites,
          model.checkAttributes composite.name composite.attributes = .ok () := by
  rw [checkAll, bind_ok_iff]
  constructor
  · rintro ⟨⟨⟩, hentities, hcomposites⟩
    exact ⟨forM_ok_iff.mp hentities, forM_ok_iff.mp hcomposites⟩
  · rintro ⟨hentities, hcomposites⟩
    exact ⟨(), forM_ok_iff.mpr hentities, forM_ok_iff.mpr hcomposites⟩

/-! ## Declarations one after the other -/

theorem nodup_append_singleton {α : Type} {key : α → String} {items : List α} {item : α}
    (hitems : (items.map key).Nodup) :
    ((items ++ [item]).map key).Nodup ↔ key item ∉ items.map key := by
  rw [List.map_append, List.nodup_append]
  constructor
  · rintro ⟨-, -, hdistinct⟩ hmem
    exact hdistinct _ hmem _ (List.mem_singleton_self _) rfl
  · intro hnew
    refine ⟨hitems, List.pairwise_singleton _ _, fun name hname other hother heq => hnew ?_⟩
    rw [List.mem_singleton.mp hother] at heq
    exact heq ▸ hname

/-- Declarations that each add one entry under a new key succeed just if no key comes twice. -/
theorem foldlM_ok_iff {α : Type} {key : α → String} {admitted : α → Prop}
    {table : List α → Metamodel} {declare : Metamodel → α → Except MetamodelFault Metamodel}
    (hdeclare : ∀ before item grown, declare (table before) item = .ok grown ↔
      key item ∉ before.map key ∧ admitted item ∧ grown = table (before ++ [item]))
    {before : List α} (hbefore : (before.map key).Nodup) {items : List α} {grown : Metamodel} :
    items.foldlM declare (table before) = .ok grown ↔
      ((before ++ items).map key).Nodup ∧ (∀ item ∈ items, admitted item)
        ∧ grown = table (before ++ items) := by
  induction items generalizing before with
  | nil =>
    rw [List.foldlM_nil, List.append_nil]
    constructor
    · rintro ⟨⟩
      exact ⟨hbefore, by simp, rfl⟩
    · rintro ⟨-, -, rfl⟩
      rfl
  | cons item items ih =>
    have hsplit : before ++ item :: items = (before ++ [item]) ++ items := by simp
    rw [List.foldlM_cons, bind_ok_iff, List.forall_mem_cons, hsplit]
    constructor
    · rintro ⟨between, hfirst, hrest⟩
      obtain ⟨hnew, hitem, rfl⟩ := (hdeclare _ _ _).mp hfirst
      obtain ⟨hkeys, hitems, hgrown⟩ := (ih ((nodup_append_singleton hbefore).mpr hnew)).mp hrest
      exact ⟨hkeys, ⟨hitem, hitems⟩, hgrown⟩
    · rintro ⟨hkeys, ⟨hitem, hitems⟩, hgrown⟩
      have hnodup : ((before ++ [item]).map key).Nodup := by
        rw [List.map_append] at hkeys
        exact (List.nodup_append.mp hkeys).1
      exact ⟨_, (hdeclare _ _ _).mpr ⟨(nodup_append_singleton hbefore).mp hnodup, hitem, rfl⟩,
        (ih hnodup).mpr ⟨hkeys, hitems, hgrown⟩⟩

theorem declareEntity_ok_iff :
    model.declareEntity entity = .ok grown ↔ entity.name ∉ model.entities.map Entity.name
      ∧ grown = { model with entities := model.entities ++ [entity] } := by
  rw [declareEntity, ← find?_isSome, ← findEntity?]
  split
  · rename_i hknown
    exact iff_of_false (fun h => by cases h) fun h => h.1 hknown
  · rename_i hnew
    exact ⟨fun h => by cases h; exact ⟨hnew, rfl⟩, fun h => by rw [h.2]⟩

theorem declareComposite_ok_iff {composite : Composite} :
    model.declareComposite composite = .ok grown ↔
      composite.name ∉ model.composites.map Composite.name
        ∧ grown = { model with composites := model.composites ++ [composite] } := by
  rw [declareComposite, ← find?_isSome, ← findComposite?]
  split
  · rename_i hknown
    exact iff_of_false (fun h => by cases h) fun h => h.1 hknown
  · rename_i hnew
    exact ⟨fun h => by cases h; exact ⟨hnew, rfl⟩, fun h => by rw [h.2]⟩

/-- Implementors are known just if they are registered, and then are the entities of their names. -/
theorem implementors_ok_iff {owner : String} {names : List String} {found : List Entity} :
    model.implementors owner names = .ok found ↔
      (∀ name ∈ names, name ∈ model.entities.map Entity.name)
        ∧ found = names.filterMap model.findEntity? := by
  induction names generalizing found with
  | nil =>
    constructor
    · rintro ⟨⟩
      exact ⟨by simp, rfl⟩
    · rintro ⟨-, rfl⟩
      rfl
  | cons name names ih =>
    rw [implementors, List.mapM_cons, bind_ok_iff, List.forall_mem_cons]
    simp only [bind_ok_iff]
    cases hname : model.findEntity? name with
    | none =>
      have hunknown : name ∉ model.entities.map Entity.name := by
        rw [← find?_isSome, ← findEntity?, hname]
        simp
      refine iff_of_false ?_ fun h => hunknown h.1.1
      rintro ⟨first, ⟨⟩, -⟩
    | some entity =>
      have hknown : name ∈ model.entities.map Entity.name := by
        rw [← find?_isSome, ← findEntity?, hname]
        rfl
      constructor
      · rintro ⟨first, ⟨⟩, rest, hrest, ⟨⟩⟩
        obtain ⟨hnames, rfl⟩ := ih.mp hrest
        exact ⟨⟨hknown, hnames⟩, by rw [List.filterMap_cons, hname]⟩
      · rintro ⟨⟨-, hnames⟩, rfl⟩
        refine ⟨entity, rfl, _, ih.mpr ⟨hnames, rfl⟩, ?_⟩
        rw [List.filterMap_cons, hname]
        rfl

theorem declarePolymorphic_ok_iff {declaration : PolymorphicDeclaration} :
    model.declarePolymorphic declaration = .ok grown ↔
      declaration.name ∉ model.polymorphic.map Polymorphic.name
        ∧ (declaration.name ∉ model.entities.map Entity.name
          ∧ ∀ name ∈ declaration.implementors, name ∈ model.entities.map Entity.name)
        ∧ grown = { model with
            polymorphic := model.polymorphic ++ [declaration.described model.entities] } := by
  rw [declarePolymorphic]
  split
  · rename_i hknown
    rw [Bool.or_eq_true, findEntity?, findPolymorphic?, find?_isSome, find?_isSome] at hknown
    refine iff_of_false (fun h => by cases h) fun h => ?_
    rcases hknown with hknown | hknown
    · exact h.2.1.1 hknown
    · exact h.1 hknown
  · rename_i hnew
    rw [Bool.or_eq_true, findEntity?, findPolymorphic?, find?_isSome, find?_isSome, not_or] at hnew
    rw [bind_ok_iff]
    constructor
    · rintro ⟨found, hfound, ⟨⟩⟩
      obtain ⟨hnames, rfl⟩ := implementors_ok_iff.mp hfound
      exact ⟨hnew.2, ⟨hnew.1, hnames⟩, rfl⟩
    · rintro ⟨-, ⟨-, hnames⟩, rfl⟩
      exact ⟨_, implementors_ok_iff.mpr ⟨hnames, rfl⟩, rfl⟩

theorem foldlM_declareEntity_ok_iff {entities : List Entity} (hmodel : model.entities = []) :
    entities.foldlM declareEntity model = .ok grown ↔
      (entities.map Entity.name).Nodup ∧ grown = { model with entities := entities } := by
  have hfold := @foldlM_ok_iff _ Entity.name (fun _ => True)
    (fun entities => { model with entities := entities }) declareEntity
    (fun before item grown => by rw [declareEntity_ok_iff, true_and]) [] List.Pairwise.nil entities
    grown
  rw [← hmodel] at hfold
  rw [hfold, hmodel, List.nil_append]
  exact ⟨fun h => ⟨h.1, h.2.2⟩, fun h => ⟨h.1, fun _ _ => trivial, h.2⟩⟩

theorem foldlM_declareComposite_ok_iff {composites : List Composite}
    (hmodel : model.composites = []) :
    composites.foldlM declareComposite model = .ok grown ↔
      (composites.map Composite.name).Nodup ∧ grown = { model with composites := composites } := by
  have hfold := @foldlM_ok_iff _ Composite.name (fun _ => True)
    (fun composites => { model with composites := composites }) declareComposite
    (fun before item grown => by rw [declareComposite_ok_iff, true_and]) [] List.Pairwise.nil
    composites grown
  rw [← hmodel] at hfold
  rw [hfold, hmodel, List.nil_append]
  exact ⟨fun h => ⟨h.1, h.2.2⟩, fun h => ⟨h.1, fun _ _ => trivial, h.2⟩⟩

theorem foldlM_declarePolymorphic_ok_iff {declarations : List PolymorphicDeclaration}
    (hmodel : model.polymorphic = []) :
    declarations.foldlM declarePolymorphic model = .ok grown ↔
      (declarations.map PolymorphicDeclaration.name).Nodup
        ∧ (∀ declaration ∈ declarations, declaration.name ∉ model.entities.map Entity.name
          ∧ ∀ name ∈ declaration.implementors, name ∈ model.entities.map Entity.name)
        ∧ grown = { model with
            polymorphic := declarations.map (PolymorphicDeclaration.described model.entities) } := by
  have hnames : ∀ declarations : List PolymorphicDeclaration,
      (declarations.map (PolymorphicDeclaration.described model.entities)).map Polymorphic.name
        = declarations.map PolymorphicDeclaration.name :=
    fun declarations => by rw [List.map_map]; rfl
  have hfold := @foldlM_ok_iff _ PolymorphicDeclaration.name
    (fun declaration => declaration.name ∉ model.entities.map Entity.name
      ∧ ∀ name ∈ declaration.implementors, name ∈ model.entities.map Entity.name)
    (fun declarations => { model with
      polymorphic := declarations.map (PolymorphicDeclaration.described model.entities) })
    declarePolymorphic
    (fun before item grown => by
      rw [declarePolymorphic_ok_iff, hnames, List.map_append, List.map_singleton])
    [] List.Pairwise.nil declarations grown
  rw [List.map_nil, ← hmodel] at hfold
  exact hfold

theorem foldl_registerClass (classes : List HostClass) (model : Metamodel) :
    classes.foldl registerClass model =
      { model with
        classes := classes.foldl
          (fun table hostClass => Keyed.insert HostClass.name hostClass table) model.classes } := by
  induction classes generalizing model with
  | nil => rfl
  | cons hostClass classes ih => exact ih (model.registerClass hostClass)

/-- Just the closed configurations are accepted, each as the model that it stands for. -/
theorem ofConfiguration_ok_iff :
    ofConfiguration configuration = .ok model ↔
      configuration.Closed ∧ model = configuration.described := by
  unfold ofConfiguration
  simp only [bind_ok_iff]
  constructor
  · rintro ⟨first, hfirst, second, hsecond, third, hthird, ⟨⟩, hcheck, ⟨⟩⟩
    obtain ⟨hentities, rfl⟩ := (foldlM_declareEntity_ok_iff rfl).mp hfirst
    obtain ⟨hcomposites, rfl⟩ := (foldlM_declareComposite_ok_iff rfl).mp hsecond
    obtain ⟨hpolymorphic, hdeclared, rfl⟩ := (foldlM_declarePolymorphic_ok_iff rfl).mp hthird
    rw [foldl_registerClass] at hcheck ⊢
    obtain ⟨hentityTypes, hcompositeTypes⟩ := checkAll_ok_iff.mp hcheck
    exact ⟨⟨hentities, hcomposites, hpolymorphic, fun _ h => (hdeclared _ h).1,
      fun _ h => (hdeclared _ h).2, fun _ h => checkAttributes_ok_iff.mp (hentityTypes _ h),
      fun _ h => checkAttributes_ok_iff.mp (hcompositeTypes _ h)⟩, rfl⟩
  · rintro ⟨h, rfl⟩
    refine ⟨_, (foldlM_declareEntity_ok_iff rfl).mpr ⟨h.entities, rfl⟩,
      _, (foldlM_declareComposite_ok_iff rfl).mpr ⟨h.composites, rfl⟩,
      _, (foldlM_declarePolymorphic_ok_iff rfl).mpr
        ⟨h.polymorphic, fun _ hmem => ⟨h.unmapped _ hmem, h.implementors _ hmem⟩, rfl⟩, (), ?_⟩
    rw [foldl_registerClass]
    exact ⟨checkAll_ok_iff.mpr ⟨fun _ hmem => checkAttributes_ok_iff.mpr (h.entityTypes _ hmem),
      fun _ hmem => checkAttributes_ok_iff.mpr (h.compositeTypes _ hmem)⟩, rfl⟩

end Metamodel

/-! ## Closed models -/

/-- Every list and every map in the type has an index type. -/
def TypeDescriptor.Indexed : TypeDescriptor → Prop
  | .basic _ | .entity _ | .polymorphic _ | .composite _ => True
  | .collection kind element => kind ≠ .list ∧ kind ≠ .map ∧ element.Indexed
  | .indexed _ index element => index.Indexed ∧ element.Indexed

namespace Metamodel

/-- Every type of an attribute is known down to its indices, every implementor is registered, and no
name is both that of an entity and polymorphic. -/
structure Closed (model : Metamodel) : Prop where
  entityTypes : ∀ entity ∈ model.entities, ∀ declared ∈ entity.attributes,
    ∃ type, model.resolve? declared.type = some type ∧ type.Indexed
  compositeTypes : ∀ composite ∈ model.composites, ∀ declared ∈ composite.attributes,
    ∃ type, model.resolve? declared.type = some type ∧ type.Indexed
  implementors : model.Implemented
  unmapped : ∀ polymorphic ∈ model.polymorphic, model.findEntity? polymorphic.name = none

variable {model grown : Metamodel} {configuration : Configuration} {entity : Entity}

/-- A type that passes the check has a descriptor with all indices. -/
theorem resolve?_of_closedOver {type : ValueType}
    (h : type.ClosedOver (model.entities.map Entity.name) (model.composites.map Composite.name)) :
    ∃ descriptor, model.resolve? type = some descriptor ∧ descriptor.Indexed := by
  induction type with
  | basic basic => exact ⟨_, rfl, trivial⟩
  | entity name =>
    obtain ⟨found, hfound⟩ := Option.isSome_iff_exists.mp (find?_isSome.mpr h)
    exact ⟨.entity found, by rw [resolve?, findEntity?, hfound]; rfl, trivial⟩
  | composite name =>
    obtain ⟨found, hfound⟩ := Option.isSome_iff_exists.mp (find?_isSome.mpr h)
    exact ⟨.composite found, by rw [resolve?, findComposite?, hfound]; rfl, trivial⟩
  | collection kind element ih =>
    obtain ⟨inner, hinner, hindexed⟩ := ih h.2
    rw [resolve?, hinner]
    by_cases hkind : kind = .list
    · exact ⟨.indexed kind (.basic .integer) inner, by simp [hkind], trivial, hindexed⟩
    · exact ⟨.collection kind inner, by simp [hkind], hkind, h.1, hindexed⟩
  | indexed kind index element ihindex ihelement =>
    obtain ⟨first, hfirst, hindex⟩ := ihindex h.1
    obtain ⟨second, hsecond, helement⟩ := ihelement h.2
    exact ⟨.indexed kind first second, by rw [resolve?, hfirst, hsecond]; rfl, hindex, helement⟩

theorem findEntity?_append {name : String} {found : Entity}
    (h : model.findEntity? name = some found) :
    findEntity? { model with entities := model.entities ++ [entity] } name = some found := by
  rw [findEntity?, Keyed.find?] at h ⊢
  rw [List.find?_append, h]
  rfl

/-- A new entity changes no descriptor. -/
theorem resolve?_append {type : ValueType} :
    ∀ {descriptor}, model.resolve? type = some descriptor →
      resolve? { model with entities := model.entities ++ [entity] } type = some descriptor := by
  induction type with
  | basic basic => exact fun h => h
  | entity name =>
    intro descriptor h
    obtain ⟨found, hfound, rfl⟩ := Option.map_eq_some_iff.mp h
    exact Option.map_eq_some_iff.mpr ⟨found, findEntity?_append hfound, rfl⟩
  | composite name => exact fun h => h
  | collection kind element ih =>
    intro descriptor h
    obtain ⟨inner, hinner, h⟩ := Option.bind_eq_some_iff.mp h
    exact Option.bind_eq_some_iff.mpr ⟨inner, ih hinner, h⟩
  | indexed kind index element ihindex ihelement =>
    intro descriptor h
    obtain ⟨first, hfirst, h⟩ := Option.bind_eq_some_iff.mp h
    obtain ⟨second, hsecond, h⟩ := Option.bind_eq_some_iff.mp h
    exact Option.bind_eq_some_iff.mpr
      ⟨first, ihindex hfirst, Option.bind_eq_some_iff.mpr ⟨second, ihelement hsecond, h⟩⟩

/-- The descriptors come from the entities and the composites. -/
theorem resolve?_congr {other : Metamodel} (hentities : other.entities = model.entities)
    (hcomposites : other.composites = model.composites) (type : ValueType) :
    other.resolve? type = model.resolve? type := by
  induction type with
  | basic basic => rfl
  | entity name => simp only [resolve?, findEntity?, hentities]
  | composite name => simp only [resolve?, findComposite?, hcomposites]
  | collection kind element ih => simp only [resolve?, ih]
  | indexed kind index element ihindex ihelement => simp only [resolve?, ihindex, ihelement]

theorem Closed.congr {other : Metamodel} (h : model.Closed)
    (hentities : other.entities = model.entities)
    (hcomposites : other.composites = model.composites)
    (hpolymorphic : other.polymorphic = model.polymorphic) : other.Closed := by
  refine ⟨?_, ?_, ?_, ?_⟩
  · simpa only [hentities, resolve?_congr hentities hcomposites] using h.entityTypes
  · simpa only [hcomposites, resolve?_congr hentities hcomposites] using h.compositeTypes
  · simpa only [Implemented, findEntity?, hentities, hpolymorphic] using h.implementors
  · simpa only [findEntity?, hentities, hpolymorphic] using h.unmapped

theorem ofConfiguration_described (h : configuration.Closed) : configuration.described.Closed where
  entityTypes entity hentity declared hdeclared :=
    resolve?_of_closedOver (h.entityTypes entity hentity declared hdeclared)
  compositeTypes composite hcomposite declared hdeclared :=
    resolve?_of_closedOver (h.compositeTypes composite hcomposite declared hdeclared)
  implementors := ofConfiguration_implemented (ofConfiguration_ok_iff.mpr ⟨h, rfl⟩)
  unmapped polymorphic hpolymorphic := by
    obtain ⟨declaration, hdeclaration, rfl⟩ := List.mem_map.mp hpolymorphic
    rw [findEntity?, ← Option.not_isSome_iff_eq_none, find?_isSome]
    exact h.unmapped declaration hdeclaration

/-! ## Growth at run time -/

/-- Of a new name, only the types are in question. -/
theorem registerEntity_of_new (hentity : entity.name ∉ model.entities.map Entity.name)
    (hpolymorphic : entity.name ∉ model.polymorphic.map Polymorphic.name) :
    model.registerEntity entity = (do
      model.checkAttributes entity.name (foreignAttributes entity)
      return { model with entities := model.entities ++ [entity] }) := by
  rw [← find?_isSome, ← findEntity?] at hentity
  rw [← find?_isSome, ← findPolymorphic?] at hpolymorphic
  rw [registerEntity, if_neg]
  rw [Bool.or_eq_true, not_or]
  exact ⟨hentity, hpolymorphic⟩

/-- An entity is registered just if its name is new and its types are closed, itself set aside. -/
theorem registerEntity_ok_iff :
    model.registerEntity entity = .ok grown ↔
      (entity.name ∉ model.entities.map Entity.name
        ∧ entity.name ∉ model.polymorphic.map Polymorphic.name)
      ∧ (∀ declared ∈ entity.attributes, declared.type ≠ .entity entity.name →
          declared.type.ClosedOver (model.entities.map Entity.name)
            (model.composites.map Composite.name))
      ∧ grown = { model with entities := model.entities ++ [entity] } := by
  have hforeign : model.checkAttributes entity.name (foreignAttributes entity) = .ok () ↔
      ∀ declared ∈ entity.attributes, declared.type ≠ .entity entity.name →
        declared.type.ClosedOver (model.entities.map Entity.name)
          (model.composites.map Composite.name) := by
    rw [checkAttributes_ok_iff]
    simp only [foreignAttributes, List.mem_filter, bne_iff_ne, and_imp]
  by_cases hnew : entity.name ∉ model.entities.map Entity.name
      ∧ entity.name ∉ model.polymorphic.map Polymorphic.name
  · rw [registerEntity_of_new hnew.1 hnew.2, bind_ok_iff, ← hforeign]
    constructor
    · rintro ⟨⟨⟩, hcheck, ⟨⟩⟩
      exact ⟨hnew, hcheck, rfl⟩
    · rintro ⟨-, hcheck, rfl⟩
      exact ⟨(), hcheck, rfl⟩
  · refine iff_of_false (fun h => ?_) fun h => hnew h.1
    rw [registerEntity] at h
    split at h
    · cases h
    · rename_i hfree
      rw [Bool.or_eq_true, findEntity?, findPolymorphic?, find?_isSome, find?_isSome,
        not_or] at hfree
      exact hnew hfree

theorem Closed.registerEntity (hmodel : model.Closed) (h : model.registerEntity entity = .ok grown) :
    grown.Closed := by
  obtain ⟨⟨-, hpolymorphic⟩, htypes, rfl⟩ := registerEntity_ok_iff.mp h
  refine ⟨?_, ?_, hmodel.implementors.append entity, ?_⟩
  · intro registered hregistered declared hdeclared
    rcases List.mem_append.mp hregistered with hold | hnew
    · obtain ⟨type, htype, hindexed⟩ := hmodel.entityTypes registered hold declared hdeclared
      exact ⟨type, resolve?_append htype, hindexed⟩
    rw [List.mem_singleton.mp hnew] at hdeclared
    by_cases hself : declared.type = .entity entity.name
    · -- The direct reference to the new entity, which was not checked, is known from now on.
      rw [hself]
      refine resolve?_of_closedOver ?_
      simp [ValueType.ClosedOver]
    · obtain ⟨type, htype, hindexed⟩ :=
        resolve?_of_closedOver (htypes declared hdeclared hself)
      exact ⟨type, resolve?_append htype, hindexed⟩
  · intro composite hcomposite declared hdeclared
    obtain ⟨type, htype, hindexed⟩ :=
      hmodel.compositeTypes composite hcomposite declared hdeclared
    exact ⟨type, resolve?_append htype, hindexed⟩
  · intro polymorphic hmem
    have hname : entity.name ≠ polymorphic.name := fun heq =>
      hpolymorphic (heq ▸ List.mem_map_of_mem hmem)
    have hold := hmodel.unmapped polymorphic hmem
    rw [findEntity?, Keyed.find?] at hold ⊢
    rw [List.find?_append, hold, List.find?_singleton]
    simp [hname]

/-- What is done to a model at run time. -/
inductive Change where
  | registerEntity (entity : Entity)
  | registerClass (hostClass : HostClass)
  | setStrict (strict : Bool)
  deriving DecidableEq, Repr

/-- The model that a change leads to, unless the change is refused. -/
def Change.result (model : Metamodel) : Change → Except MetamodelFault Metamodel
  | .registerEntity entity => model.registerEntity entity
  | .registerClass hostClass => .ok (model.registerClass hostClass)
  | .setStrict strict => .ok (model.setStrict strict)

/-- A change made to the model that is held, with its answer. -/
def Change.perform (change : Change) : StateM Metamodel (Except MetamodelFault Unit) :=
  fun model =>
    match change.result model with
    | .ok grown => (.ok (), grown)
    | .error fault => (.error fault, model)

/-- The model that is held after some changes, those that are refused among them. -/
def after (model : Metamodel) (changes : List Change) : Metamodel :=
  changes.foldl (fun model change => (change.perform model).2) model

theorem Change.perform_closed (change : Change) (h : model.Closed) :
    (change.perform model).2.Closed := by
  unfold perform
  split
  · rename_i grown hresult
    cases change with
    | registerEntity entity => exact h.registerEntity hresult
    | registerClass hostClass =>
      cases hresult
      exact h.congr rfl rfl rfl
    | setStrict strict =>
      cases hresult
      exact h.congr rfl rfl rfl
  · exact h

/-- A refused change leaves the model as it was. -/
theorem Change.perform_refused {change : Change} {fault : MetamodelFault}
    (h : (change.perform model).1 = .error fault) : (change.perform model).2 = model := by
  unfold perform at h ⊢
  split at h
  · cases h
  · rfl

/-- Whatever is done to a closed model, it is closed after that. -/
theorem after_closed (h : model.Closed) (changes : List Change) : (model.after changes).Closed := by
  induction changes generalizing model with
  | nil => exact h
  | cons change changes ih => exact ih (change.perform_closed h)

/-- Just the closed configurations are accepted. The model of each is closed and stays so whatever
is done to it, and a change that is refused leaves it. -/
theorem ofConfiguration_closed (configuration : Configuration) :
    ((∃ model, ofConfiguration configuration = .ok model) ↔ configuration.Closed)
      ∧ ∀ model, ofConfiguration configuration = .ok model → ∀ changes : List Change,
        (model.after changes).Closed
          ∧ ∀ (change : Change) (fault : MetamodelFault),
            (change.perform (model.after changes)).1 = .error fault →
              (change.perform (model.after changes)).2 = model.after changes := by
  refine ⟨⟨?_, fun h => ⟨_, ofConfiguration_ok_iff.mpr ⟨h, rfl⟩⟩⟩, ?_⟩
  · rintro ⟨model, h⟩
    exact (ofConfiguration_ok_iff.mp h).1
  · intro model h changes
    obtain ⟨hclosed, rfl⟩ := ofConfiguration_ok_iff.mp h
    exact ⟨after_closed (ofConfiguration_described hclosed) changes,
      fun _ _ hrefused => Change.perform_refused hrefused⟩

/-- A stable of horses, with the mares by their names and the races in their order. -/
def stable : Configuration where
  entities :=
    [⟨"Horse", [⟨"name", .basic .string⟩, ⟨"dam", .entity "Horse"⟩]⟩,
      ⟨"Stable", [⟨"mares", .map (.basic .string) (.entity "Horse")⟩,
        ⟨"races", .list (.set (.entity "Horse"))⟩, ⟨"place", .composite "Place"⟩]⟩]
  composites := [⟨"Place", [⟨"town", .basic .string⟩]⟩]
  polymorphic := [⟨"Animal", ["Horse"]⟩]

/-- The rider of a horse, who follows another rider. -/
def rider : Entity := ⟨"Rider", [⟨"horse", .entity "Horse"⟩, ⟨"follows", .entity "Rider"⟩]⟩

/-- A stable that takes in riders but no animals of another kind. -/
theorem ofConfiguration_closed_stable :
    ∃ model, ofConfiguration stable = .ok model
      ∧ stable.Closed
      ∧ (model.after [.registerEntity rider, .registerEntity ⟨"Animal", []⟩]).Closed
      ∧ model.after [.registerEntity rider, .registerEntity ⟨"Animal", []⟩]
        = model.after [.registerEntity rider]
      ∧ (model.after [.registerEntity rider]).entityNames = ["Horse", "Stable", "Rider"] := by
  have hok : ofConfiguration stable = .ok stable.described := by rfl
  obtain ⟨haccepted, hrun⟩ := ofConfiguration_closed stable
  have hrefused : (Change.perform (.registerEntity ⟨"Animal", []⟩)
      (stable.described.after [.registerEntity rider])).1 = .error (.duplicateName "Animal") := by
    rfl
  exact ⟨_, hok, haccepted.mp ⟨_, hok⟩, (hrun _ hok _).1,
    (hrun _ hok [.registerEntity rider]).2 _ _ hrefused, by decide +kernel⟩

/-! ## Registered or declared -/

end Metamodel

/-- An attribute in which the entity occurs is a direct reference to it. -/
def Entity.RefersDirectly (entity : Entity) : Prop :=
  ∀ declared ∈ entity.attributes, declared.type.Mentions entity.name →
    declared.type = .entity entity.name

namespace Metamodel

variable {model grown : Metamodel} {configuration : Configuration} {entity : Entity}

/-- A configuration that is closed stays so with an entity of a new name whose types are closed. -/
theorem closed_withEntity_iff (h : configuration.Closed) :
    (configuration.withEntity entity).Closed ↔
      (entity.name ∉ configuration.entities.map Entity.name
        ∧ entity.name ∉ configuration.polymorphic.map PolymorphicDeclaration.name)
      ∧ ∀ declared ∈ entity.attributes,
          declared.type.ClosedOver (configuration.entities.map Entity.name ++ [entity.name])
            (configuration.composites.map Composite.name) := by
  have hnames : (configuration.withEntity entity).entities.map Entity.name
      = configuration.entities.map Entity.name ++ [entity.name] := by
    simp [Configuration.withEntity]
  constructor
  · intro hwith
    refine ⟨⟨(nodup_append_singleton h.entities).mp hwith.entities, ?_⟩, ?_⟩
    · intro hmem
      obtain ⟨declaration, hdeclaration, hname⟩ := List.mem_map.mp hmem
      refine hwith.unmapped declaration hdeclaration ?_
      rw [hnames, hname]
      simp
    · rw [← hnames]
      exact hwith.entityTypes entity (by simp [Configuration.withEntity])
  · rintro ⟨⟨hentity, hpolymorphic⟩, htypes⟩
    refine ⟨(nodup_append_singleton h.entities).mpr hentity, h.composites, h.polymorphic,
      ?_, ?_, ?_, ?_⟩
    · intro declaration hdeclaration
      rw [hnames, List.mem_append, not_or]
      refine ⟨h.unmapped declaration hdeclaration, fun hname => hpolymorphic ?_⟩
      rw [← List.mem_singleton.mp hname]
      exact List.mem_map_of_mem hdeclaration
    · intro declaration hdeclaration name hname
      rw [hnames]
      exact List.mem_append_left _ (h.implementors declaration hdeclaration name hname)
    · intro declared hdeclared
      rw [hnames]
      rcases List.mem_append.mp hdeclared with hold | hnew
      · exact fun _ hmem => (h.entityTypes _ hold _ hmem).mono (List.subset_append_left _ _)
      · rw [List.mem_singleton.mp hnew]
        exact htypes
    · intro composite hcomposite declared hdeclared
      rw [hnames]
      exact (h.compositeTypes composite hcomposite declared hdeclared).mono
        (List.subset_append_left _ _)

/-- The implementors of the polymorphic names are found before the entity is added. -/
theorem described_withEntity (h : configuration.Closed) :
    (configuration.withEntity entity).described
      = { configuration.described with entities := configuration.entities ++ [entity] } := by
  have himplementors : ∀ declaration ∈ configuration.polymorphic,
      declaration.described (configuration.entities ++ [entity])
        = declaration.described configuration.entities := by
    intro declaration hdeclaration
    rw [PolymorphicDeclaration.described, PolymorphicDeclaration.described]
    congr 1
    refine List.filterMap_congr fun name hname => ?_
    obtain ⟨found, hfound⟩ := Option.isSome_iff_exists.mp
      (find?_isSome.mpr (h.implementors declaration hdeclaration name hname))
    rw [hfound]
    exact @findEntity?_append configuration.described entity name found hfound
  simp only [Configuration.described, Configuration.withEntity, Metamodel.mk.injEq, true_and,
    and_true]
  exact List.map_congr_left himplementors

/-- The only fault of a type that lacks nothing but an entity is that entity. -/
theorem check_of_append {owner name : String} {type : ValueType}
    (h : type.ClosedOver (model.entities.map Entity.name ++ [name])
      (model.composites.map Composite.name)) :
    model.check owner type = .ok () ∨ model.check owner type = .error (.unknownType owner name) := by
  induction type with
  | basic basic => exact .inl rfl
  | entity other =>
    rcases List.mem_append.mp h with h | h
    · exact .inl (check_ok_iff.mpr h)
    · rw [List.mem_singleton.mp h, check]
      split
      · exact .inl rfl
      · exact .inr rfl
  | composite other => exact .inl (check_ok_iff.mpr h)
  | collection kind element ih =>
    rw [check, if_neg h.1]
    exact ih h.2
  | indexed kind index element ihindex ihelement =>
    rw [check]
    rcases ihindex h.1 with hindex | hindex
    · rw [hindex]
      exact ihelement h.2
    · rw [hindex]
      exact .inr rfl

theorem checkAttributes_of_append {owner name : String} {attributes : List Attribute}
    (h : ∀ declared ∈ attributes, declared.type.ClosedOver
      (model.entities.map Entity.name ++ [name]) (model.composites.map Composite.name)) :
    model.checkAttributes owner attributes = .ok ()
      ∨ model.checkAttributes owner attributes = .error (.unknownType owner name) := by
  induction attributes with
  | nil => exact .inl rfl
  | cons declared attributes ih =>
    obtain ⟨hdeclared, hattributes⟩ := List.forall_mem_cons.mp h
    rw [checkAttributes, List.forM_eq_forM, List.forM_cons]
    rcases @check_of_append model owner name declared.type hdeclared with hcheck | hcheck
    · rw [hcheck]
      exact ih hattributes
    · rw [hcheck]
      exact .inr rfl

/-- Registering an entity with a model made from a configuration is declaring it there, except that
a registered entity may refer to itself directly only. Another reference of the entity to itself is
reported as an unknown type. -/
theorem registerEntity_withEntity (h : ofConfiguration configuration = .ok model)
    (entity : Entity) :
    (∀ grown, model.registerEntity entity = .ok grown ↔
        ofConfiguration (configuration.withEntity entity) = .ok grown ∧ entity.RefersDirectly)
      ∧ ∀ grown, ofConfiguration (configuration.withEntity entity) = .ok grown →
        ¬ entity.RefersDirectly →
          model.registerEntity entity = .error (.unknownType entity.name entity.name) := by
  obtain ⟨hclosed, rfl⟩ := ofConfiguration_ok_iff.mp h
  have hpolymorphic : configuration.described.polymorphic.map Polymorphic.name
      = configuration.polymorphic.map PolymorphicDeclaration.name := by
    rw [Configuration.described, List.map_map]
    rfl
  have hregistered : ∀ grown, configuration.described.registerEntity entity = .ok grown ↔
      ofConfiguration (configuration.withEntity entity) = .ok grown ∧ entity.RefersDirectly := by
    intro grown
    rw [registerEntity_ok_iff, ofConfiguration_ok_iff, closed_withEntity_iff hclosed,
      described_withEntity hclosed, hpolymorphic]
    constructor
    · rintro ⟨hnew, htypes, hgrown⟩
      refine ⟨⟨⟨hnew, fun declared hdeclared => ?_⟩, hgrown⟩, fun declared hdeclared hself => ?_⟩
      · by_cases hdirect : declared.type = .entity entity.name
        · rw [hdirect]
          exact List.mem_append_right _ (List.mem_singleton_self _)
        · exact (htypes declared hdeclared hdirect).mono (List.subset_append_left _ _)
      · by_contra hdirect
        exact hnew.1 ((htypes declared hdeclared hdirect).mentioned hself)
    · rintro ⟨⟨⟨hnew, htypes⟩, hgrown⟩, hdirectly⟩
      refine ⟨hnew, fun declared hdeclared hdirect => ?_, hgrown⟩
      exact (htypes declared hdeclared).of_append
        fun hself => hdirect (hdirectly declared hdeclared hself)
  refine ⟨hregistered, fun grown hgrown hindirect => ?_⟩
  obtain ⟨hwith, -⟩ := ofConfiguration_ok_iff.mp hgrown
  obtain ⟨hnew, htypes⟩ := (closed_withEntity_iff hclosed).mp hwith
  -- The name is new, so the refusal comes from a type, and the types lack the entity only.
  have hforeign := @checkAttributes_of_append configuration.described entity.name entity.name
    (foreignAttributes entity) fun declared hdeclared =>
      htypes declared (List.mem_of_mem_filter hdeclared)
  rw [← hpolymorphic] at hnew
  have hrun := @registerEntity_of_new configuration.described entity hnew.1 hnew.2
  rcases hforeign with hcheck | hcheck
  · rw [hcheck] at hrun
    exact absurd ((hregistered _).mp hrun).2 hindirect
  · rw [hrun, hcheck]
    rfl

/-- A rider who leads other riders. -/
def leader : Entity := ⟨"Rider", [⟨"horse", .entity "Horse"⟩, ⟨"led", .list (.entity "Rider")⟩]⟩

/-- A rider who follows another one is registered as declared, but one who leads others can only be
declared. -/
theorem registerEntity_withEntity_stable :
    ofConfiguration stable = .ok stable.described
      ∧ stable.described.registerEntity rider = ofConfiguration (stable.withEntity rider)
      ∧ stable.described.registerEntity leader = .error (.unknownType "Rider" "Rider")
      ∧ ofConfiguration (stable.withEntity leader) = .ok (stable.withEntity leader).described := by
  have hok : ofConfiguration stable = .ok stable.described := by rfl
  have hrider : ofConfiguration (stable.withEntity rider)
      = .ok (stable.withEntity rider).described := by rfl
  have hleader : ofConfiguration (stable.withEntity leader)
      = .ok (stable.withEntity leader).described := by rfl
  have hdirectly : rider.RefersDirectly := by
    simp [Entity.RefersDirectly, rider, ValueType.Mentions]
  have hindirect : ¬ leader.RefersDirectly := by
    simp [Entity.RefersDirectly, leader, ValueType.Mentions, ValueType.list]
  refine ⟨hok, ?_, (registerEntity_withEntity hok leader).2 _ hleader hindirect, hleader⟩
  rw [hrider]
  exact ((registerEntity_withEntity hok rider).1 _).mpr ⟨hrider, hdirectly⟩

end Metamodel
end EntityQuery

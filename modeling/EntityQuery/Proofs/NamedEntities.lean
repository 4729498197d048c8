import EntityQuery.Domain.Metamodel
import EntityQuery.Phrase.Tree

/-!
# Entities named in place of polymorphic names

A query whose outermost from clause names polymorphic types stands for the queries that name one of
the implementors in place of each of them.

* `tuples`: the choices of one item from each of some lists.
* `Phrase.Query.polymorphicNames`: the polymorphic types that the outermost from clause names.
* `Phrase.Query.withEntities`: the query that names entities in their place.
* `Metamodel.Reachable`, `Metamodel.Reachable.implementor`: an implementor is what its name refers
  to.
-/

namespace EntityQuery

/-- The choices of one item from each list in lexicographic order, the first one varying slowest. -/
def tuples {α : Type} : List (List α) → List (List α)
  | [] => [[]]
  | items :: rest => items.flatMap fun item => (tuples rest).map fun others => item :: others

theorem tuples_cons_mem {α : Type} {items : List α} {rest : List (List α)} {tuple : List α}
    (h : tuple ∈ tuples (items :: rest)) :
    ∃ item others, tuple = item :: others ∧ item ∈ items ∧ others ∈ tuples rest := by
  obtain ⟨item, hitem, htuple⟩ := List.mem_flatMap.mp h
  obtain ⟨others, hothers, rfl⟩ := List.mem_map.mp htuple
  exact ⟨item, others, rfl, hitem, hothers⟩

namespace Phrase

/-- The polymorphic type that the root of a space names. -/
def Space.polymorphic? (schema : Schema) : Space → Option Polymorphic
  | .mk root _ =>
    match schema.entity? root.entity.text with
    | some (.polymorphic polymorphic) => some polymorphic
    | _ => none

theorem Space.polymorphic?_some {schema : Schema} {root : Root} {joins : List Join}
    {polymorphic : Polymorphic}
    (h : Space.polymorphic? schema (.mk root joins) = some polymorphic) :
    schema.entity? root.entity.text = some (.polymorphic polymorphic) := by
  simp only [Space.polymorphic?] at h
  split at h
  · rename_i found hfound
    cases h
    exact hfound
  · cases h

/-- The space whose root names something else. -/
def Space.naming (name : DottedName) : Space → Space
  | .mk root joins => .mk { root with entity := name } joins

/-- The spaces that name entities in place of polymorphic types, as long as there are entities. -/
def spacesWith (schema : Schema) (naming : Entity → DottedName) :
    List Space → List Entity → List Space
  | space :: spaces, entity :: entities =>
    match space.polymorphic? schema with
    | some _ => space.naming (naming entity) :: spacesWith schema naming spaces entities
    | none => space :: spacesWith schema naming spaces (entity :: entities)
  | spaces, _ => spaces

/-- The polymorphic types that the outermost from clause names, one for each root that does. -/
def Query.polymorphicNames (schema : Schema) : Query → List Polymorphic
  | .mk _ spaces _ _ _ _ => spaces.filterMap (Space.polymorphic? schema)

/-- The query that names entities in place of the polymorphic types of its outermost from clause. -/
def Query.withEntities (schema : Schema) (naming : Entity → DottedName) (entities : List Entity) :
    Query → Query
  | .mk select spaces restriction order limit offset =>
    .mk select (spacesWith schema naming spaces entities) restriction order limit offset

variable {schema : Schema} {naming : Entity → DottedName}

theorem spacesWith_nil (spaces : List Space) : spacesWith schema naming spaces [] = spaces := by
  cases spaces <;> rfl

theorem spacesWith_of_nil (entities : List Entity) : spacesWith schema naming [] entities = [] := by
  cases entities <;> rfl

/-- A space is kept if it names no polymorphic type or no entity is left. -/
theorem spacesWith_kept {space : Space} {spaces : List Space} {entities : List Entity}
    (h : entities = [] ∨ space.polymorphic? schema = none) :
    spacesWith schema naming (space :: spaces) entities
      = space :: spacesWith schema naming spaces entities := by
  cases entities with
  | nil => rw [spacesWith_nil, spacesWith_nil]
  | cons entity entities =>
    rcases h with h | h
    · cases h
    · rw [spacesWith, h]

theorem spacesWith_replaced {space : Space} {spaces : List Space} {polymorphic : Polymorphic}
    (h : space.polymorphic? schema = some polymorphic) (entity : Entity) (entities : List Entity) :
    spacesWith schema naming (space :: spaces) (entity :: entities)
      = space.naming (naming entity) :: spacesWith schema naming spaces entities := by
  rw [spacesWith, h]

end Phrase

/-! ## Domains -/

namespace Metamodel

/-- The domains that come about: those of configurations, and what they grow into. -/
inductive Reachable : Metamodel → Prop where
  | configured {configuration : Configuration} {model : Metamodel}
      (h : ofConfiguration configuration = .ok model) : Reachable model
  | registered {model grown : Metamodel} {entity : Entity} (hmodel : Reachable model)
      (h : model.registerEntity entity = .ok grown) : Reachable grown
  | withClass {model : Metamodel} (hmodel : Reachable model) (hostClass : HostClass) :
      Reachable (model.registerClass hostClass)
  | switched {model : Metamodel} (hmodel : Reachable model) (strict : Bool) :
      Reachable (model.setStrict strict)

/-- The name of an implementor refers to it. -/
def Implemented (model : Metamodel) : Prop :=
  ∀ polymorphic ∈ model.polymorphic, ∀ entity ∈ polymorphic.implementors,
    model.findEntity? entity.name = some entity

theorem bind_ok {α β : Type} {first : Except MetamodelFault α}
    {second : α → Except MetamodelFault β} {result : β} (h : first >>= second = .ok result) :
    ∃ value, first = .ok value ∧ second value = .ok result := by
  cases first with
  | error fault => cases h
  | ok value => exact ⟨value, rfl, h⟩

theorem foldlM_ok {α : Type} {step : Metamodel → α → Except MetamodelFault Metamodel}
    (P : Metamodel → Prop) (hstep : ∀ model item grown, P model → step model item = .ok grown →
      P grown) {items : List α} {model grown : Metamodel} (hmodel : P model)
    (h : items.foldlM step model = .ok grown) : P grown := by
  induction items generalizing model with
  | nil =>
    cases h
    exact hmodel
  | cons item items ih =>
    rw [List.foldlM_cons] at h
    obtain ⟨between, hfirst, hrest⟩ := bind_ok h
    exact ih (hstep model item between hmodel hfirst) hrest

/-- A new entity takes no name away. -/
theorem Implemented.append {model : Metamodel} (h : model.Implemented) (entity : Entity) :
    Implemented { model with entities := model.entities ++ [entity] } := by
  intro polymorphic hpolymorphic implementor himplementor
  have hfound := h polymorphic hpolymorphic implementor himplementor
  rw [findEntity?, Keyed.find?] at hfound ⊢
  rw [List.find?_append, hfound]
  rfl

theorem declareEntity_implemented {model grown : Metamodel} {entity : Entity}
    (hmodel : model.Implemented) (h : model.declareEntity entity = .ok grown) :
    grown.Implemented := by
  unfold declareEntity at h
  split at h
  · cases h
  · cases h
    exact hmodel.append entity

theorem declareComposite_implemented {model grown : Metamodel} {composite : Composite}
    (hmodel : model.Implemented) (h : model.declareComposite composite = .ok grown) :
    grown.Implemented := by
  unfold declareComposite at h
  split at h
  · cases h
  · cases h
    exact hmodel

theorem mapM_ok {α β : Type} {visit : α → Except MetamodelFault β} {items : List α}
    {values : List β} (h : items.mapM visit = .ok values) :
    ∀ value ∈ values, ∃ item, visit item = .ok value := by
  induction items generalizing values with
  | nil =>
    cases h
    exact fun value hvalue => by cases hvalue
  | cons item items ih =>
    rw [List.mapM_cons] at h
    obtain ⟨first, hfirst, h⟩ := bind_ok h
    obtain ⟨rest, hrest, h⟩ := bind_ok h
    cases h
    intro value hvalue
    rcases List.mem_cons.mp hvalue with rfl | hvalue
    · exact ⟨item, hfirst⟩
    · exact ih hrest value hvalue

/-- Implementors are found by their names. -/
theorem implementors_ok {model : Metamodel} {owner : String} {names : List String}
    {found : List Entity} (h : model.implementors owner names = .ok found) :
    ∀ entity ∈ found, model.findEntity? entity.name = some entity := by
  intro entity hentity
  obtain ⟨name, hname⟩ := mapM_ok h entity hentity
  cases hfound : model.findEntity? name with
  | none =>
    rw [hfound] at hname
    cases hname
  | some other =>
    rw [hfound] at hname
    cases hname
    have hkey : entity.name = name := Keyed.find?_key hfound
    rw [hkey]
    exact hfound

theorem declarePolymorphic_implemented {model grown : Metamodel}
    {declaration : PolymorphicDeclaration} (hmodel : model.Implemented)
    (h : model.declarePolymorphic declaration = .ok grown) : grown.Implemented := by
  unfold declarePolymorphic at h
  split at h
  · cases h
  obtain ⟨found, hfound, h⟩ := bind_ok h
  cases h
  intro polymorphic hpolymorphic entity hentity
  rcases List.mem_append.mp hpolymorphic with hold | hnew
  · exact hmodel polymorphic hold entity hentity
  · rw [List.mem_singleton.mp hnew] at hentity
    exact implementors_ok hfound entity hentity

theorem ofConfiguration_implemented {configuration : Configuration} {model : Metamodel}
    (h : ofConfiguration configuration = .ok model) : model.Implemented := by
  have hclasses : ∀ (classes : List HostClass) {start : Metamodel}, start.Implemented →
      (classes.foldl registerClass start).Implemented := by
    intro classes
    induction classes with
    | nil => exact fun hstart => hstart
    | cons hostClass classes ih => exact fun hstart => ih hstart
  have hstart : Implemented { empty with strict := configuration.strict } :=
    fun _ hnone => by cases hnone
  unfold ofConfiguration at h
  obtain ⟨first, hfirst, h⟩ := bind_ok h
  obtain ⟨second, hsecond, h⟩ := bind_ok h
  obtain ⟨third, hthird, h⟩ := bind_ok h
  obtain ⟨-, -, h⟩ := bind_ok h
  cases h
  refine hclasses configuration.classes ?_
  have hentities := foldlM_ok Implemented (fun _ _ _ => declareEntity_implemented) hstart hfirst
  have hcomposites :=
    foldlM_ok Implemented (fun _ _ _ => declareComposite_implemented) hentities hsecond
  exact foldlM_ok Implemented (fun _ _ _ => declarePolymorphic_implemented) hcomposites hthird

theorem Reachable.implemented {model : Metamodel} (h : model.Reachable) : model.Implemented := by
  induction h with
  | configured h => exact ofConfiguration_implemented h
  | @registered model grown entity hmodel h ih =>
    unfold registerEntity at h
    split at h
    · cases h
    obtain ⟨-, -, h⟩ := bind_ok h
    cases h
    exact ih.append entity
  | withClass hmodel hostClass ih => exact ih
  | switched hmodel strict ih => exact ih

/-- In a domain that comes about, the name of an implementor refers to it. -/
theorem Reachable.implementor {model : Metamodel} (h : model.Reachable) {name : String}
    {polymorphic : Polymorphic}
    (hname : model.schema.entity? name = some (.polymorphic polymorphic))
    {entity : Entity} (hentity : entity ∈ polymorphic.implementors) :
    model.schema.entity? entity.name = some (.mapped entity) := by
  have hreference : model.reference? name = some (.polymorphic polymorphic) := hname
  unfold reference? at hreference
  split at hreference
  · cases hreference
  obtain ⟨found, hfound, heq⟩ := Option.map_eq_some_iff.mp hreference
  cases heq
  have hself := h.implemented polymorphic (Keyed.find?_mem hfound) entity hentity
  change model.reference? entity.name = _
  rw [reference?, hself]

end Metamodel
end EntityQuery

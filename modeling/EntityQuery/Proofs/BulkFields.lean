import EntityQuery.Proofs.StrictLanguage
import EntityQuery.Proofs.WellTyped

/-!
# State fields of bulk statements

A bulk statement has a mapped entity as its target, to which nothing is joined. Its clauses reach
the attributes of the target in place: through composites, unless an index leads into a collection.
What follows an index is taken from the indexed element whatever its type is.

* `wayRules`: what is required of the way to each attribute of a statement.
* `Phrase.Statement.Renders.target`: the target of a statement that renders a phrase.
* `interpretPhrase_bulk`: every bulk statement that has a meaning.
-/

namespace EntityQuery

open Interpretation Resolved

/-- What is required of each attribute that a statement mentions, wherever it does: what lies on the
way from an element to it are composites exactly where no index is on the way. -/
def wayRules : Rules where
  reference attained := attained.throughComposites = true ↔ attained.indices = []

theorem Resolved.AttributeReference.InPlace.way {attained : AttributeReference}
    (h : attained.InPlace) : attained.throughComposites = true ↔ attained.indices = [] := by
  cases attained
  exact h

/-- A root that has to be mapped stands for a mapped entity. -/
theorem Phrase.Root.Renders.entity {written : Phrase.Root} {schema : Schema}
    {element : FromElement} (h : written.Renders schema true element) :
    ∃ binding entity, element = .root binding ∧ binding.type = .entity entity := by
  obtain ⟨binding, reference, rfl, -, htype, hmapped⟩ := h
  cases reference with
  | mapped entity => exact ⟨binding, entity, rfl, htype⟩
  | polymorphic polymorphic => cases hmapped rfl

/-- The target of a statement is the root of a mapped entity without joins. -/
theorem Phrase.Statement.Renders.target {written : Phrase.Statement} {schema : Schema}
    {maps : Bool} {node : Resolved.Statement} {target : Resolved.Space}
    (h : written.Renders schema maps node) (htarget : node.target? = some target) :
    target.joins = []
      ∧ ∃ binding entity, target.root = .root binding ∧ binding.type = .entity entity := by
  cases written with
  | select query =>
    obtain ⟨select, rfl, -⟩ := h
    cases htarget
  | update root assignments restriction =>
    obtain ⟨element, assigned, condition, rfl, hroot, -⟩ := h
    cases htarget
    exact ⟨rfl, hroot.entity⟩
  | delete root restriction =>
    obtain ⟨element, condition, rfl, hroot, -⟩ := h
    cases htarget
    exact ⟨rfl, hroot.entity⟩
  | insert root fields query =>
    obtain ⟨element, assigned, select, rfl, hroot, -⟩ := h
    cases htarget
    exact ⟨rfl, hroot.entity⟩

/-- A bulk statement that has a meaning has a mapped target without joins, and every attribute that
it mentions is reached through composites exactly where no index is on the way. -/
theorem interpretPhrase_bulk {phrase : Phrase.Statement} {schema : Schema} {meaning : Meaning}
    {target : Space} (h : interpretPhrase phrase schema = .ok meaning)
    (htarget : meaning.statement.target? = some target) :
    target.joins = []
      ∧ (∃ binding entity, target.root = .root binding ∧ binding.type = .entity entity)
      ∧ meaning.statement.Holds wayRules := by
  obtain ⟨hjoins, hroot⟩ := (interpretPhrase_renders h).target htarget
  have hplain : False → phrase.Plain := False.elim
  obtain ⟨context, hbuilt, -⟩ := interpretPhrase_built hplain h
  refine ⟨hjoins, hroot, hbuilt.holds.mono ?_⟩
  exact {
    element := fun _ _ => trivial
    reference := fun hrule => hrule.2.way
    indexed := fun _ => trivial
    expression := fun _ => trivial
    predicate := fun _ => trivial
    subquery := fun _ => trivial
    select := fun _ => trivial }

/-! ## A domain of lions -/

/-- Lions have cubs and are looked after by keepers. -/
def pride : Metamodel where
  entities :=
    [⟨"Keeper", [⟨"name", .basic .string⟩]⟩,
      ⟨"Lion", [⟨"cubs", .list (.entity "Lion")⟩, ⟨"keeper", .entity "Keeper"⟩]⟩]

/-- The lions whose first cub is looked after by a certain keeper. -/
def firstCubText : String := "delete Lion l where l.cubs[0].keeper.name = 'tom'"

/-- The restriction of a deletion compares an attribute of the target that is not reached through
composites. -/
def Interpretation.Meaning.strays (meaning : Meaning) : Bool :=
  match meaning.statement with
  | .delete target (some (.comparison _ (.reference attained) _)) =>
    attained.sourceElement == target.root && !attained.throughComposites
  | _ => false

/-- Behind an index, an attribute of an entity is gone through. -/
theorem interpretPhrase_bulk_firstCub :
    ∃ phrase meaning target, Phrase.Statement.ofText firstCubText = .ok phrase
      ∧ interpretPhrase phrase pride.schema = .ok meaning
      ∧ meaning.statement.target? = some target ∧ meaning.strays = true
      ∧ target.joins = [] ∧ meaning.statement.Holds wayRules := by
  have hpasses : (interpret firstCubText pride.schema).toOption.any (fun meaning =>
      meaning.statement.target?.isSome && meaning.strays) = true := by decide +kernel
  obtain ⟨phrase, meaning, hread, hmeaning, htest⟩ := interpret_passes hpasses
  obtain ⟨hsome, hstrays⟩ := Bool.and_eq_true_iff.mp htest
  obtain ⟨target, htarget⟩ := Option.isSome_iff_exists.mp hsome
  obtain ⟨hjoins, -, hholds⟩ := interpretPhrase_bulk hmeaning htarget
  exact ⟨phrase, meaning, target, hread, hmeaning, htarget, hstrays, hjoins, hholds⟩

end EntityQuery

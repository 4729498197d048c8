import EntityQuery.Domain.Metamodel
import EntityQuery.Proofs.PlainReading
import EntityQuery.Proofs.RelatedReading
import EntityQuery.Proofs.RenamedPhrases
import EntityQuery.Proofs.RenamedScopes
import EntityQuery.Proofs.RenamedStatements
import EntityQuery.Proofs.WellTyped

/-!
# Variables are hygienic

How the variables of a statement are called does not matter: with other variables, which are as
different from each other as its own and mean nothing in the domain, a statement that is read has
the same meaning up to these variables, or it fails with the same code. What a metamodel knows is
listed, so that a name can be seen to mean nothing in it: it is no reserved word, no function without
parentheses, no attribute, and no listed type begins with it. The variables of a text that is read
are words; as they are those of its parts, having words for variables is a congruence.

* `Metamodel.attributes`, `Metamodel.typeNames`: what is listed.
* `Metamodel.schema_free`: names that mean nothing.
* `Worded`, `wording`: the declared names are words, and the congruence.
* `Statement.ofText_worded`: the variables of a statement that is read.
* `Phrase.Statement.relabel`: other variables for those of a statement.
* `Phrase.Statement.Hygienic`: the renamings that are harmless.
* `interpretPhrase_renamed`: the meaning of a statement with other variables.
-/

/-! ## Names that mean nothing -/

namespace EntityQuery

namespace TypeDescriptor

/-- Neither the type nor what it is a collection of declares the name. -/
def Lacks (name : String) : TypeDescriptor → Prop
  | collection _ element => element.Lacks name
  | indexed _ _ element => element.Lacks name
  | type => type.declared? name = none

theorem Lacks.declared? {name : String} {type : TypeDescriptor} (h : type.Lacks name) :
    type.declared? name = none := by
  cases type with
  | collection kind element => rfl
  | indexed kind index element => rfl
  | _ => exact h

theorem Lacks.element {name : String} {type element : TypeDescriptor} (h : type.Lacks name)
    (helement : type.element? = some element) : element.Lacks name := by
  cases type with
  | collection kind inner =>
    cases helement
    exact h
  | indexed kind index inner =>
    cases helement
    exact h
  | _ => cases helement

end TypeDescriptor

namespace Metamodel

variable {model : Metamodel} {name : String}

/-- The attributes of entities and composites, implementors of polymorphic names included. -/
def attributes (model : Metamodel) : List Attribute :=
  model.entities.flatMap Entity.attributes ++ model.composites.flatMap Composite.attributes
    ++ model.polymorphic.flatMap fun declared => declared.implementors.flatMap Entity.attributes

/-- The names of entities, of polymorphic names and of classes. -/
def typeNames (model : Metamodel) : List String :=
  model.entities.map Entity.name ++ model.polymorphic.map Polymorphic.name
    ++ model.classes.map HostClass.name

theorem leadingPart_text (hpoint : '.' ∉ name.toList) (names : List String) :
    leadingPart (DottedName.mk (name :: names)).text = name := by
  match names with
  | [] => rw [DottedName.text_single, leadingPart_plain hpoint]
  | second :: names => rw [DottedName.text_cons_cons, leadingPart_point, leadingPart_plain hpoint]

section

variable (hattributes : ∀ declared ∈ model.attributes, declared.name ≠ name)
include hattributes

theorem find?_attributes {attributes : List Attribute} (h : attributes ⊆ model.attributes) :
    Keyed.find? Attribute.name name attributes = none := by
  cases hfound : Keyed.find? Attribute.name name attributes with
  | none => rfl
  | some declared =>
    exact absurd (Keyed.find?_key hfound) (hattributes declared (h (Keyed.find?_mem hfound)))

theorem entity_lacks {entity : Entity} (h : entity ∈ model.entities) :
    (TypeDescriptor.entity entity).Lacks name :=
  find?_attributes hattributes fun _ hdeclared =>
    List.mem_append_left _ (List.mem_append_left _ (List.mem_flatMap.mpr ⟨entity, h, hdeclared⟩))

theorem composite_lacks {composite : Composite} (h : composite ∈ model.composites) :
    (TypeDescriptor.composite composite).Lacks name :=
  find?_attributes hattributes fun _ hdeclared =>
    List.mem_append_left _
      (List.mem_append_right _ (List.mem_flatMap.mpr ⟨composite, h, hdeclared⟩))

theorem polymorphic_lacks {polymorphic : Polymorphic} (h : polymorphic ∈ model.polymorphic) :
    (TypeDescriptor.polymorphic polymorphic).Lacks name := by
  change polymorphic.declared? name = none
  unfold Polymorphic.declared?
  cases himplementors : polymorphic.implementors with
  | nil => rfl
  | cons first rest =>
    have hfirst : first.declared? name = none := by
      refine find?_attributes hattributes fun declared hdeclared => ?_
      refine List.mem_append_right _ (List.mem_flatMap.mpr ⟨polymorphic, h, ?_⟩)
      rw [himplementors]
      exact List.mem_flatMap.mpr ⟨first, List.mem_cons_self, hdeclared⟩
    simp only [hfirst]

theorem resolve?_lacks (declared : ValueType) :
    ∀ type, model.resolve? declared = some type → type.Lacks name := by
  induction declared with
  | basic basic =>
    rintro type ⟨rfl⟩
    rfl
  | entity entity =>
    intro type h
    obtain ⟨found, hfound, rfl⟩ := Option.map_eq_some_iff.mp h
    exact entity_lacks hattributes (Keyed.find?_mem hfound)
  | composite composite =>
    intro type h
    obtain ⟨found, hfound, rfl⟩ := Option.map_eq_some_iff.mp h
    exact composite_lacks hattributes (Keyed.find?_mem hfound)
  | collection kind element ih =>
    intro type h
    obtain ⟨inner, hinner, h⟩ := Option.bind_eq_some_iff.mp h
    split at h
    · cases h
      exact ih inner hinner
    · cases h
      exact ih inner hinner
  | indexed kind index element _ ih =>
    intro type h
    obtain ⟨_, -, h⟩ := Option.bind_eq_some_iff.mp h
    obtain ⟨inner, hinner, h⟩ := Option.bind_eq_some_iff.mp h
    cases h
    exact ih inner hinner

theorem gives_lacks {type : TypeDescriptor} (h : model.schema.Gives type) : type.Lacks name := by
  induction h with
  | @entity entityName reference h =>
    change model.reference? entityName = some reference at h
    unfold reference? at h
    split at h
    · rename_i found hfound
      cases h
      exact entity_lacks hattributes (Keyed.find?_mem hfound)
    · obtain ⟨found, hfound, rfl⟩ := Option.map_eq_some_iff.mp h
      exact polymorphic_lacks hattributes (Keyed.find?_mem hfound)
  | declared h => exact resolve?_lacks hattributes _ _ h
  | element _ helement ih => exact ih.element helement

end

/-- A name that no listed type begins with and no listed attribute has means nothing. -/
theorem schema_free (hpoint : '.' ∉ name.toList) (hreserved : Catalogue.isReserved name = false)
    (hniladic : Catalogue.isNiladicFunction name = false)
    (htypes : ∀ typeName ∈ model.typeNames, leadingPart typeName ≠ name)
    (hattributes : ∀ declared ∈ model.attributes, declared.name ≠ name) :
    model.schema.Free name where
  reserved := hreserved
  niladic := hniladic
  entity names := by
    change model.reference? _ = none
    have hleading : ∀ typeName ∈ model.typeNames,
        typeName ≠ (DottedName.mk (name :: names)).text := by
      rintro typeName htypeName rfl
      exact htypes _ htypeName (leadingPart_text hpoint names)
    unfold reference?
    cases hentity : model.findEntity? (DottedName.mk (name :: names)).text with
    | some found =>
      have hmem : found.name ∈ model.typeNames := List.mem_append_left _
        (List.mem_append_left _ (List.mem_map_of_mem (Keyed.find?_mem hentity)))
      exact absurd (Keyed.find?_key hentity) (hleading _ hmem)
    | none =>
      cases hpolymorphic : model.findPolymorphic? (DottedName.mk (name :: names)).text with
      | none => rfl
      | some found =>
        have hmem : found.name ∈ model.typeNames := List.mem_append_left _
          (List.mem_append_right _ (List.mem_map_of_mem (Keyed.find?_mem hpolymorphic)))
        exact absurd (Keyed.find?_key hpolymorphic) (hleading _ hmem)
  hostClass names := by
    change model.class? _ = none
    cases hclass : model.class? (DottedName.mk (name :: names)).text with
    | none => rfl
    | some found =>
      have hmem : found.name ∈ model.typeNames :=
        List.mem_append_right _ (List.mem_map_of_mem (Keyed.find?_mem hclass))
      refine absurd ?_ (htypes _ hmem)
      rw [Keyed.find?_key hclass]
      exact leadingPart_text hpoint names
  undeclared _ htype := (gives_lacks hattributes htype).declared?

end Metamodel
end EntityQuery

/-! ## Variables are words -/

namespace EntityQuery.Phrase

open Grammar (Spells)

/-- The names that are declared are words. -/
def Worded (occurrences : List Occurrence) : Prop :=
  ∀ name, .declared name ∈ occurrences → Grammar.IsWord name

theorem worded_nil : Worded [] := fun _ h => nomatch h

theorem worded_append {front back : List Occurrence} (hfront : Worded front)
    (hback : Worded back) : Worded (front ++ back) := fun name h =>
  (List.mem_append.mp h).elim (hfront name) (hback name)

theorem worded_path (path : DottedName) : Worded (pathOccurrences path) := by
  intro name h
  obtain ⟨first, -, hused⟩ := List.mem_map.mp h
  cases hused

theorem worded_alias {alias? small? : Option String} (h : Option.Rel Spells alias? small?) :
    Worded (aliasOccurrences alias?) := by
  cases h with
  | none => exact worded_nil
  | some h =>
    intro name hname
    obtain rfl : name = _ := by simpa [aliasOccurrences] using hname
    exact h.2

/-! ## Parts of lists and options -/

theorem worded_expressions {written other : List Expression}
    (h : List.Forall₂ (fun written _ => Worded written.occurrences) written other) :
    Worded (expressionsOccurrences written) := by
  induction h with
  | nil => exact worded_nil
  | cons hfirst _ ih => exact worded_append hfirst ih

theorem worded_optional {written other : Option Expression}
    (h : Option.Rel (fun written _ => Worded written.occurrences) written other) :
    Worded (optionalOccurrences written) := by
  cases h with
  | some h => exact h
  | none => exact worded_nil

theorem worded_restriction {written other : Option Predicate}
    (h : Option.Rel (fun written _ => Worded written.occurrences) written other) :
    Worded (restrictionOccurrences written) := by
  cases h with
  | some h => exact h
  | none => exact worded_nil

theorem worded_simpleWhens {whens other : List SimpleWhen}
    (h : List.Forall₂ (SimpleWhen.Related fun written _ => Worded written.occurrences) whens
      other) : Worded (simpleWhensOccurrences whens) := by
  induction h with
  | nil => exact worded_nil
  | @cons first first' _ _ hfirst _ ih =>
    obtain ⟨value, result⟩ := first
    obtain ⟨value', result'⟩ := first'
    exact worded_append (worded_append hfirst.1 hfirst.2) ih

theorem worded_searchedWhens {whens other : List SearchedWhen}
    (h : List.Forall₂ (SearchedWhen.Related (fun written _ => Worded written.occurrences)
      fun written _ => Worded written.occurrences) whens other) :
    Worded (searchedWhensOccurrences whens) := by
  induction h with
  | nil => exact worded_nil
  | @cons first first' _ _ hfirst _ ih =>
    obtain ⟨condition, result⟩ := first
    obtain ⟨condition', result'⟩ := first'
    exact worded_append (worded_append hfirst.1 hfirst.2) ih

/-- The aliases of arguments are no variables. -/
theorem worded_arguments {items other : List SelectItem}
    (h : List.Forall₂ (SelectItem.Related fun written _ => Worded written.occurrences) items
      other) : Worded (argumentsOccurrences items) := by
  induction h with
  | nil => exact worded_nil
  | @cons first first' _ _ hfirst _ ih =>
    obtain ⟨written, alias?⟩ := first
    obtain ⟨written', alias?'⟩ := first'
    exact worded_append hfirst.1 ih

theorem worded_selections {items other : List SelectItem}
    (h : List.Forall₂ (SelectItem.Related fun written _ => Worded written.occurrences) items
      other) : Worded (selectionsOccurrences items) := by
  induction h with
  | nil => exact worded_nil
  | @cons first first' _ _ hfirst _ ih =>
    obtain ⟨written, alias?⟩ := first
    obtain ⟨written', alias?'⟩ := first'
    exact worded_append (worded_append (worded_alias hfirst.2) hfirst.1) ih

theorem worded_clause {clause other : Option SelectClause}
    (h : Option.Rel (SelectClause.Related fun written _ => Worded written.occurrences) clause
      other) : Worded (clauseOccurrences clause) := by
  cases h with
  | none => exact worded_nil
  | @some clause other h =>
    obtain ⟨distinct, items⟩ := clause
    obtain ⟨distinct', items'⟩ := other
    exact worded_selections h.2

theorem worded_joins {joins other : List Join}
    (h : List.Forall₂ (fun written _ => Worded written.occurrences) joins other) :
    Worded (joinsOccurrences joins) := by
  induction h with
  | nil => exact worded_nil
  | cons hfirst _ ih => exact worded_append hfirst ih

theorem worded_spaces {spaces other : List Space}
    (h : List.Forall₂ (Space.Related fun written _ => Worded written.occurrences) spaces other) :
    Worded (spacesOccurrences spaces) := by
  induction h with
  | nil => exact worded_nil
  | @cons first first' _ _ hfirst _ ih =>
    obtain ⟨root, joins⟩ := first
    obtain ⟨root', joins'⟩ := first'
    exact worded_append (worded_append (worded_alias hfirst.1.2) (worded_joins hfirst.2)) ih

theorem worded_sortItems {items other : List SortItem}
    (h : List.Forall₂ (SortItem.Related fun written _ => Worded written.occurrences) items
      other) : Worded (sortItemsOccurrences items) := by
  induction h with
  | nil => exact worded_nil
  | @cons first first' _ _ hfirst _ ih =>
    obtain ⟨written, collation, ordering⟩ := first
    obtain ⟨written', collation', ordering'⟩ := first'
    exact worded_append hfirst.1 ih

theorem worded_order {order other : Option (List SortItem)}
    (h : Option.Rel (List.Forall₂ (SortItem.Related fun written _ => Worded written.occurrences))
      order other) : Worded (orderOccurrences order) := by
  cases h with
  | none => exact worded_nil
  | some h => exact worded_sortItems h

theorem worded_assignments {assignments other : List Assignment}
    (h : List.Forall₂ (Assignment.Related fun written _ => Worded written.occurrences) assignments
      other) : Worded (assignments.flatMap Assignment.occurrences) := by
  induction h with
  | nil => exact worded_nil
  | @cons first _ rest _ hfirst _ ih =>
    rw [List.flatMap_cons]
    exact worded_append (worded_append (worded_path first.path) hfirst.2) ih

theorem worded_paths (paths : List DottedName) : Worded (paths.flatMap pathOccurrences) := by
  intro name hname
  obtain ⟨path, -, hdeclared⟩ := List.mem_flatMap.mp hname
  exact worded_path path name hdeclared

/-! ## Phrases -/

/-- The variables of the first phrase are words. -/
def wording : Congruence where
  expression written _ := Worded written.occurrences
  predicate written _ := Worded written.occurrences
  selection written _ := Worded written.occurrences
  join written _ := Worded written.occurrences
  query written _ := Worded written.occurrences
  literal _ := worded_nil
  parameter _ := worded_nil
  path path := worded_path path
  indexed base _ h := worded_append (worded_path base) h
  treated base _ _ := worded_path base
  mapFunction _ argument := worded_path argument
  arithmetic _ hleft hright := worded_append hleft (worded_append hright worded_nil)
  concatenation hleft hright := worded_append hleft (worded_append hright worded_nil)
  unary _ h := h
  grouped h := h
  call _ _ _ _ h := worded_expressions h
  simpleCase hoperand hwhens hotherwise :=
    worded_append (worded_append hoperand (worded_simpleWhens hwhens))
      (worded_optional hotherwise)
  searchedCase hwhens hotherwise :=
    worded_append (worded_searchedWhens hwhens) (worded_optional hotherwise)
  subquery h := h
  and hleft hright := worded_append hleft hright
  or hleft hright := worded_append hleft hright
  not h := h
  groupedPredicate h := h
  comparison _ hleft hright := worded_append hleft hright
  between _ htested hlower hupper := worded_append (worded_append htested hlower) hupper
  like _ hmatched hpattern hescape :=
    worded_append (worded_append hmatched hpattern) (worded_optional hescape)
  inList _ htested hitems := worded_append htested (worded_expressions hitems)
  inSubquery _ htested h := worded_append htested h
  isNull _ h := h
  isEmpty _ h := h
  memberOf _ helement hcollection := worded_append helement hcollection
  existence _ h := h
  instantiation _ h := worded_arguments h
  object name := by
    intro other h
    cases List.mem_singleton.mp h
  selected h := h
  cross h := worded_alias h.2
  collection path h := worded_append (worded_path path) (worded_alias h)
  qualified _ _ target halias hcondition :=
    worded_append (worded_append (worded_path target.path) (worded_alias halias))
      (worded_restriction hcondition)
  clauses hselect hspaces hrestriction horder hlimit hoffset :=
    worded_append (worded_append (worded_append (worded_append (worded_append
      (worded_clause hselect) (worded_spaces hspaces)) (worded_restriction hrestriction))
      (worded_order horder)) (worded_optional hlimit)) (worded_optional hoffset)

/-- The variables of a statement that is read from a text are words. -/
theorem Statement.ofText_worded {source : String} {phrase : Statement}
    (h : Statement.ofText source = .ok phrase) : Worded phrase.occurrences := by
  obtain ⟨small, hrelated⟩ := Statement.related_of_read wording h
  cases hrelated with
  | select hquery => exact hquery
  | update htarget hassignments hrestriction =>
    exact worded_append (worded_append (worded_alias htarget.2) (worded_assignments hassignments))
      (worded_restriction hrestriction)
  | delete htarget hrestriction =>
    exact worded_append (worded_alias htarget.2) (worded_restriction hrestriction)
  | insert target stateFields hquery => exact worded_append (worded_paths stateFields) hquery

end EntityQuery.Phrase

/-! ## Other variables -/

namespace EntityQuery

open Interpretation

namespace Phrase.Statement

/-- The names of a statement, with other names for its variables. -/
def relabel (phrase : Statement) (other : String → String) (name : String) : String :=
  if name ∈ phrase.variables then other name else name

/-- The other variables are kept apart, they and the old ones mean nothing in the domain, and none of
them is another name of the statement or, as no identifier is, a made-up variable. -/
structure Hygienic (phrase : Statement) (schema : Schema) (other : String → String) : Prop where
  injective : ∀ first ∈ phrase.variables, ∀ second ∈ phrase.variables,
    other first = other second → first = second
  free : ∀ name ∈ phrase.variables, schema.Free name ∧ schema.Free (other name)
  fresh : ∀ name ∈ phrase.variables, other name ∈ phrase.names → other name ∈ phrase.variables
  drawn : ∀ name ∈ phrase.variables, ∀ number, other name ≠ Context.generatedAlias number

variable {phrase : Statement} {schema : Schema} {other : String → String} {name : String}

theorem relabel_variable (h : name ∈ phrase.variables) :
    phrase.relabel other name = other name := if_pos h

theorem relabel_other (h : name ∉ phrase.variables) : phrase.relabel other name = name :=
  if_neg h

/-- The variables of a phrase are its declared names. -/
theorem mem_variables : name ∈ phrase.variables ↔ .declared name ∈ phrase.occurrences := by
  constructor
  · intro h
    obtain ⟨occurrence, hoccurrence, hname⟩ := List.mem_filterMap.mp h
    cases occurrence with
    | declared declared =>
      cases hname
      exact hoccurrence
    | used used => cases hname
  · exact fun h => List.mem_filterMap.mpr ⟨.declared name, h, rfl⟩

/-- A made-up variable is none of the variables that are words. -/
theorem generated_not_mem (hworded : Worded phrase.occurrences) (number : Nat) :
    Context.generatedAlias number ∉ phrase.variables := fun h =>
  generatedAlias_of_isWord (hworded _ (mem_variables.mp h)) number rfl

/-- A word has no points. -/
theorem point_not_mem_of_isWord (h : Grammar.IsWord name) : '.' ∉ name.toList := by
  obtain ⟨first, letters, hname, hfirst, hletters⟩ := h.form
  rw [hname]
  intro hpoint
  rcases List.mem_cons.mp hpoint with rfl | hpoint
  · exact absurd hfirst (by decide)
  · exact absurd (hletters _ hpoint) (by decide)

namespace Hygienic

/-- The renaming of the variables; names that no other variable is taken for may occur. -/
def toRenaming (h : phrase.Hygienic schema other) (hworded : Worded phrase.occurrences) :
    Renaming schema where
  rename := phrase.relabel other
  admits name := name ∈ phrase.variables ∨ ∀ known ∈ phrase.variables, other known ≠ name
  injective {first second} hfirst hsecond hsame := by
    by_cases hone : first ∈ phrase.variables
    · rw [relabel_variable hone] at hsame
      by_cases htwo : second ∈ phrase.variables
      · rw [relabel_variable htwo] at hsame
        exact h.injective first hone second htwo hsame
      · rw [relabel_other htwo] at hsame
        exact absurd hsame ((hsecond.resolve_left htwo) first hone)
    · rw [relabel_other hone] at hsame
      by_cases htwo : second ∈ phrase.variables
      · rw [relabel_variable htwo] at hsame
        exact absurd hsame.symm ((hfirst.resolve_left hone) second htwo)
      · rwa [relabel_other htwo] at hsame
  free {name} hname := by
    by_cases hvariable : name ∈ phrase.variables
    · rw [relabel_variable hvariable]
      exact h.free name hvariable
    · exact absurd (relabel_other hvariable) hname
  generated number :=
    ⟨.inr fun known hknown => h.drawn known hknown number,
      relabel_other (generated_not_mem hworded number)⟩

/-- All names of the statement may occur. -/
theorem allows (h : phrase.Hygienic schema other) (hworded : Worded phrase.occurrences) :
    ∀ occurrence ∈ phrase.occurrences, (h.toRenaming hworded).Allows occurrence := by
  intro occurrence hoccurrence
  cases occurrence with
  | declared name =>
    exact ⟨.inl (mem_variables.mpr hoccurrence),
      point_not_mem_of_isWord (hworded name hoccurrence)⟩
  | used name =>
    by_cases hvariable : name ∈ phrase.variables
    · exact .inl hvariable
    · refine .inr fun known hknown hsame => hvariable ?_
      have hname : name ∈ phrase.names := List.mem_map.mpr ⟨.used name, hoccurrence, rfl⟩
      rw [← hsame] at hname ⊢
      exact h.fresh known hknown hname

end Hygienic
end Phrase.Statement

/-- With other variables, a statement that is read has the same meaning up to the variables, which
are also those in front of the paths that joins were made for, or it fails with the same code. -/
theorem interpretPhrase_renamed {source : String} {phrase : Phrase.Statement} {schema : Schema}
    {other : String → String} (hread : Phrase.Statement.ofText source = .ok phrase)
    (hother : phrase.Hygienic schema other) :
    Agrees (fun meaning meaning' =>
        meaning'.statement = meaning.statement.renamed (phrase.relabel other)
          ∧ meaning'.narrowings = meaning.narrowings)
      (interpretPhrase phrase schema)
      (interpretPhrase (phrase.renamed (phrase.relabel other)) schema) := by
  have hworded := Phrase.Statement.ofText_worded hread
  let ρ := hother.toRenaming hworded
  have hfits : ρ.Fits .empty := ⟨fun _ h => (by cases h), fun _ h => (by cases h)⟩
  have hruns : Outcomes ρ
      (fun statement statement' => statement' = statement.renamed (phrase.relabel other))
      ((Step.statement phrase).run' schema .empty)
      ((Step.statement (phrase.renamed (phrase.relabel other))).run' schema .empty) :=
    Step.statement_renamed phrase (hother.allows hworded) .empty hfits []
  unfold interpretPhrase
  generalize (Step.statement phrase).run' schema .empty = ran at hruns
  generalize (Step.statement (phrase.renamed (phrase.relabel other))).run' schema .empty = ran'
    at hruns
  cases hruns with
  | ok advisories hvalue _ => exact .ok ⟨hvalue, rfl⟩
  | error hcode => exact .error hcode

/-! ## Exchanged variables -/

/-- A text that is read as a phrase which passes a test. -/
theorem Phrase.Statement.ofText_passes {text : String} {test : Phrase.Statement → Bool}
    (h : (Phrase.Statement.ofText text).toOption.any test = true) :
    ∃ phrase, Phrase.Statement.ofText text = .ok phrase ∧ test phrase = true := by
  cases hread : Phrase.Statement.ofText text with
  | error report =>
    rw [hread] at h
    cases h
  | ok phrase =>
    rw [hread] at h
    exact ⟨phrase, rfl, h⟩

/-- Libraries under the name of shelves, shelves under that of libraries. -/
def exchanged : String → String
  | "l" => "s"
  | "s" => "l"
  | "mark" => "tag"
  | name => name

/-- None of the variables of `marksText`, and none of the others, means anything. -/
theorem shelving_free {name : String} (h : name ∈ ["l", "s", "mark", "tag"]) :
    shelving.schema.Free name := by
  have hlisted : ∀ name ∈ ["l", "s", "mark", "tag"], '.' ∉ name.toList
      ∧ Catalogue.isReserved name = false ∧ Catalogue.isNiladicFunction name = false
      ∧ (∀ typeName ∈ shelving.typeNames, leadingPart typeName ≠ name)
      ∧ ∀ declared ∈ shelving.attributes, declared.name ≠ name := by decide +kernel
  obtain ⟨hpoint, hreserved, hniladic, htypes, hattributes⟩ := hlisted name h
  exact Metamodel.schema_free hpoint hreserved hniladic htypes hattributes

/-- The variables of libraries and of shelves may be exchanged. -/
theorem interpretPhrase_renamed_exchanged :
    ∃ phrase, Phrase.Statement.ofText marksText = .ok phrase
      ∧ phrase.Hygienic shelving.schema exchanged
      ∧ phrase.variables.map exchanged = ["tag", "s", "l"]
      ∧ (interpretPhrase phrase shelving.schema).isOk = true
      ∧ Agrees (fun meaning meaning' =>
            meaning'.statement = meaning.statement.renamed (phrase.relabel exchanged)
              ∧ meaning'.narrowings = meaning.narrowings)
          (interpretPhrase phrase shelving.schema)
          (interpretPhrase (phrase.renamed (phrase.relabel exchanged)) shelving.schema) := by
  have hpasses : (Phrase.Statement.ofText marksText).toOption.any (fun phrase =>
      phrase.variables == ["mark", "l", "s"] && !phrase.names.contains "tag"
        && (interpretPhrase phrase shelving.schema).isOk) = true := by decide +kernel
  obtain ⟨phrase, hread, htest⟩ := Phrase.Statement.ofText_passes hpasses
  simp only [Bool.and_eq_true, beq_iff_eq, Bool.not_eq_true', List.contains_eq_mem,
    decide_eq_false_iff_not] at htest
  obtain ⟨⟨hvariables, htag⟩, hok⟩ := htest
  have hhygienic : phrase.Hygienic shelving.schema exchanged := by
    constructor
    · rw [hvariables]
      decide
    · rw [hvariables]
      intro name hname
      have hboth : ∀ name ∈ ["mark", "l", "s"], name ∈ ["l", "s", "mark", "tag"]
          ∧ exchanged name ∈ ["l", "s", "mark", "tag"] := by decide
      exact ⟨shelving_free (hboth name hname).1, shelving_free (hboth name hname).2⟩
    · rw [hvariables]
      intro name hname hused
      have hcases : ∀ name ∈ ["mark", "l", "s"],
          exchanged name = "tag" ∨ exchanged name ∈ ["mark", "l", "s"] := by decide
      rcases hcases name hname with htagged | hkept
      · rw [htagged] at hused
        exact absurd hused htag
      · exact hkept
    · rw [hvariables]
      intro name hname number
      have hwords : ∀ name ∈ ["mark", "l", "s"],
          Grammar.takeWord? (exchanged name).toList = some (exchanged name, []) := by decide
      exact Phrase.generatedAlias_of_isWord (hwords name hname) number
  refine ⟨phrase, hread, hhygienic, ?_, hok, interpretPhrase_renamed hread hhygienic⟩
  rw [hvariables]
  decide

end EntityQuery

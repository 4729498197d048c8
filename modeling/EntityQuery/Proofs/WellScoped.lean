import EntityQuery.Proofs.BoundElements
import EntityQuery.Proofs.PlainReading
import EntityQuery.Proofs.WellTyped

/-!
# Scopes of built statements

In a statement that was read and built, every from element that is mentioned, and every one that it
was reached by, is bound once: in a from clause around the mention. Elements are told apart by their
numbers, which grow along the way to an element.

The restriction of a join mentions no element of another space of its query, as far as it is written
outside nested queries. A query that is nested in the restriction sees all variables around it,
those of the other spaces included.

* `scopingRules`: what may be mentioned at a place, and the variables of a from clause.
* `BuiltStatement.bound_once`, `BuiltStatement.unique`, `BuiltStatement.ordered`: the elements of a
  statement that was built.
* `Statement.WellScoped`, `ofText_wellScoped`: all of this for every text that has a meaning.
* `secludingRules`, `interpretPhrase_secluded`: what is required of the restrictions of joins, and
  that every statement that has a meaning meets it.
* `Resolved.Select.looksAside`: a restriction mentions another space at some depth.
-/

namespace EntityQuery

open Interpretation Resolved

/-- What is required of the scopes of a statement: only what is bound in a from clause around the
mention is mentioned, and no two elements of a from clause share a variable. -/
def scopingRules : Rules where
  element scope bound := bound.Within scope
  select node := node.AliasesDistinct

/-- A target without joins has one variable. -/
theorem Resolved.Space.aliases_nodup {target : Space} (h : target.joins = []) :
    (target.elements.map FromElement.aliasName).Nodup := by
  simp [Space.elements, h]

namespace Interpretation.BuiltStatement

variable {schema : Schema} {clean : Prop} {statement : Statement} {context : Context}

theorem holds_scoping (h : BuiltStatement schema clean statement context) (hclean : clean) :
    statement.Holds scopingRules := by
  refine h.holds.mono ?_
  exact {
    element := fun hscope hrule => hrule.2.mono hscope
    reference := fun _ => trivial
    indexed := fun _ => trivial
    expression := fun _ => trivial
    predicate := fun _ => trivial
    subquery := fun _ => trivial
    select := fun hrule => hrule.2.1 hclean }

/-- What a statement mentions is registered, and stands in its from clauses. -/
theorem reached (h : BuiltStatement schema clean statement context) {element : FromElement}
    (hmem : element ∈ statement.elements) :
    element ∈ context.registered ∧ element.unwrapped ∈ statement.boundElements := by
  obtain ⟨leaf, hleaf, hchain⟩ := List.mem_flatMap.mp hmem
  cases leaf with
  | literal token => cases hchain
  | parameter written => cases hchain
  | element mentioned =>
    obtain ⟨inner, hinner, hregistered, hwithin⟩ := h.holds.mentioned mentioned hleaf
    exact ⟨h.sound.closed mentioned hregistered hchain, hinner (hwithin element hchain)⟩

theorem bound_once (h : BuiltStatement schema clean statement context) {element : FromElement}
    (hmem : element ∈ statement.elements) :
    statement.boundElements.count element.unwrapped = 1 :=
  List.count_eq_one_of_mem (List.Nodup.of_map _ h.placedOnce) (h.reached hmem).2

theorem unique (h : BuiltStatement schema clean statement context) {element other : FromElement}
    (hmem : element ∈ statement.elements) (hother : other ∈ statement.elements)
    (huid : element.uid = other.uid) : element = other :=
  h.sound.unique element (h.reached hmem).1 other (h.reached hother).1 huid

theorem ordered (h : BuiltStatement schema clean statement context) {element : FromElement}
    (hmem : element ∈ statement.elements) : element.Ordered :=
  h.sound.ordered element (h.reached hmem).1

end Interpretation.BuiltStatement

/-- The bindings of a statement are well scoped and unique. -/
structure Resolved.Statement.WellScoped (statement : Statement) : Prop where
  /-- What is mentioned is bound in a from clause around the mention. -/
  reach : statement.Holds scopingRules
  /-- The elements of a bulk target share no variable. -/
  target : ∀ target, statement.target? = some target →
    (target.elements.map FromElement.aliasName).Nodup
  /-- What is mentioned is bound in one place of the statement. -/
  boundOnce : ∀ element ∈ statement.elements,
    statement.boundElements.count element.unwrapped = 1
  /-- Elements are told apart by their numbers. -/
  unique : ∀ element ∈ statement.elements, ∀ other ∈ statement.elements,
    element.uid = other.uid → element = other
  /-- The source of a join comes before the join, and what is narrowed before the narrowed one. -/
  ordered : ∀ element ∈ statement.elements, element.Ordered

/-- Every statement that is read from a text and has a meaning is well scoped. -/
theorem ofText_wellScoped {source : String} {phrase : Phrase.Statement} {schema : Schema}
    {meaning : Meaning} (hread : Phrase.Statement.ofText source = .ok phrase)
    (h : interpretPhrase phrase schema = .ok meaning) : meaning.statement.WellScoped := by
  have hplain : True → phrase.Plain := fun _ => Phrase.Statement.ofText_plain hread
  obtain ⟨context, hbuilt, -⟩ := interpretPhrase_built hplain h
  exact {
    reach := hbuilt.holds_scoping trivial
    target := fun target htarget => Space.aliases_nodup (hbuilt.bare target htarget)
    boundOnce := fun element hmem => hbuilt.bound_once hmem
    unique := fun element hmem other hother huid => hbuilt.unique hmem hother huid
    ordered := fun element hmem => hbuilt.ordered hmem }

/-- The libraries with a shelf that is labelled like the one in front. -/
def frontText : String :=
  "select 1 from Library l where exists (select 1 from Shelf s where s.label = l.front.label)"

theorem ofText_wellScoped_front :
    ∃ phrase meaning, Phrase.Statement.ofText frontText = .ok phrase
      ∧ interpretPhrase phrase shelving.schema = .ok meaning
      ∧ meaning.statement.WellScoped := by
  have hok : (interpret frontText shelving.schema).isOk = true := by decide +kernel
  obtain ⟨phrase, meaning, hread, hmeaning⟩ := interpret_isOk hok
  exact ⟨phrase, meaning, hread, hmeaning, ofText_wellScoped hread hmeaning⟩

/-! ## Restrictions of joins -/

/-- What is required of the joins of a statement: each restriction keeps to its space and to the
queries around its own one. -/
def secludingRules : Rules where
  select node := node.Secluded

/-- Outside nested queries, no restriction of a join mentions another space of its query. -/
theorem interpretPhrase_secluded {phrase : Phrase.Statement} {schema : Schema} {meaning : Meaning}
    (h : interpretPhrase phrase schema = .ok meaning) :
    meaning.statement.Holds secludingRules := by
  have hplain : False → phrase.Plain := False.elim
  obtain ⟨context, hbuilt, -⟩ := interpretPhrase_built hplain h
  refine hbuilt.holds.mono ?_
  exact {
    element := fun _ _ => trivial
    reference := fun _ => trivial
    indexed := fun _ => trivial
    expression := fun _ => trivial
    predicate := fun _ => trivial
    subquery := fun _ => trivial
    select := fun hrule => hrule.2.2.2.1 }

/-- The restriction of a join mentions, at some depth, an element of another space. -/
def Resolved.Select.looksAside (select : Select) : Bool :=
  select.spaces.any fun space => space.joins.any fun join =>
    (leafElements (restrictionLeaves join.restriction)).any fun element =>
      select.spaces.any fun other =>
        other.root != space.root && other.elements.contains element.unwrapped

/-- The shelves of libraries, joined where a shelf is labelled like the one of another space. -/
def asideText : String :=
  "select 1 from Shelf f, Library l join l.shelves s "
    ++ "on exists (select 1 from Shelf o where o.label = f.label)"

/-- The outermost query of a selection looks aside. -/
def Interpretation.Meaning.looksAside (meaning : Meaning) : Bool :=
  match meaning.statement with
  | .select select => select.looksAside
  | _ => false

/-- The nested query mentions the root of the first space in the restriction of a join of the
second one. -/
theorem interpretPhrase_secluded_aside :
    ∃ phrase meaning, Phrase.Statement.ofText asideText = .ok phrase
      ∧ interpretPhrase phrase shelving.schema = .ok meaning
      ∧ meaning.statement.Holds secludingRules ∧ meaning.looksAside = true := by
  have hpasses : (interpret asideText shelving.schema).toOption.any Meaning.looksAside = true := by
    decide +kernel
  obtain ⟨phrase, meaning, hread, hmeaning, haside⟩ := interpret_passes hpasses
  exact ⟨phrase, meaning, hread, hmeaning, interpretPhrase_secluded hmeaning, haside⟩

end EntityQuery

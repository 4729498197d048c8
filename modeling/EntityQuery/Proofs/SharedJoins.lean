import EntityQuery.Proofs.BuiltStatements
import EntityQuery.Proofs.TracedQueries
import EntityQuery.Proofs.WellScoped

/-!
# Shared joins

In every statement that has a meaning there is at most one implicit join for each source and
attribute. It stands behind its source, in the same space, and every path over the attribute goes
through it, whichever clause or nested query came first and whatever is joined explicitly.

The clauses of a bulk statement see its target, and their own paths are exempt; the queries nested
in them are not. The query of an insertion is read when the target has been left.

* `Step.bulk_traces`: a level with the target of a bulk statement.
* `Step.statement_traces`: the paths of a statement are traced in its meaning.
* `FromElement.ImplicitWay.unique`: names lead over implicit joins to one element.
* `Resolved.Statement.SharesJoins`: what is shared.
* `interpretPhrase_sharesJoins`: every meaning shares its implicit joins, and the paths of its
  phrase are traced to them.
-/

namespace EntityQuery.Interpretation

/-- In a bulk statement it does not matter what paths may refer to. -/
theorem Context.Stands.inBulk {schema : Schema} {bulk : Bool} {visible : List FromElement}
    {context : Context} (h : context.Stands schema bulk visible) :
    context.Stands schema true visible :=
  ⟨h.sound, h.declared, fun _ => rfl⟩

namespace Step

variable {schema : Schema} {bulk : Bool} {visible : List FromElement} {before : Context}

/-! ## Clauses of bulk statements -/

theorem mapM_trace {α β : Type} {items : List β} {visit : β → Step α} {traces : β → α → Prop}
    (hstands : before.Stands schema bulk visible)
    (h : ∀ item {context : Context}, context.Stands schema bulk visible →
      Tracing bulk visible (traces item) schema context (visit item)) :
    Tracing bulk visible (List.Forall₂ traces items) schema before (items.mapM visit) := by
  induction items generalizing before with
  | nil =>
    rw [List.mapM_nil]
    exact ends_pure ⟨hstands, .nil⟩
  | cons item items ih =>
    rw [List.mapM_cons]
    exact two_trace (h item hstands) ih fun _ _ hfirst hrest => .cons hfirst hrest

theorem under_bulk_traces {α : Type} {step : Step α} {traces : α → Prop}
    (hstands : before.Stands schema true visible)
    (h : ∀ {context : Context}, context.Stands schema true visible →
      Tracing true visible traces schema context step) :
    Tracing true visible traces schema before (under .bulk step) := by
  refine ends_under (ends_mono (h (hstands.under fun _ => rfl)) ?_)
  rintro value after ⟨hafter, hvalue⟩
  exact ⟨⟨(hafter.sound.idle _ after.style? after.advisories).sound, hafter.declared,
    fun _ => rfl⟩, hvalue⟩

theorem stateField_stands (hstands : before.Stands schema bulk visible) (field : DottedName) :
    Tracing bulk visible (fun _ => True) schema before (stateField field) :=
  ends_mono (keeps_stands hstands (stateField_moves (keepsVariables schema) field)
    (ends_mono (stateField_builds hstands.sound field) fun _ _ h => h.1.sound))
    fun _ _ h => ⟨h, trivial⟩

theorem assignment_traces (hstands : before.Stands schema true visible)
    (written : Phrase.Assignment) :
    Tracing true visible (fun node => written.value.Traces true visible node.value) schema before
      (assignment written) :=
  under_bulk_traces hstands fun hcontext =>
    two_trace (stateField_stands hcontext _) (expression_traces written.value)
      fun _ _ _ hvalue => hvalue

theorem bulkRestriction_traces (hstands : before.Stands schema true visible)
    (condition : Option Phrase.Predicate) :
    Tracing true visible (Phrase.restrictionTraces true visible condition) schema before
      (bulkRestriction condition) := by
  cases condition with
  | none => exact ends_pure ⟨hstands, rfl⟩
  | some written =>
    exact one_traces (under_bulk_traces hstands (predicate_traces written))
      fun rendered h => ⟨rendered, rfl, h⟩

/-! ## Targets of bulk statements -/

/-- The target of a bulk statement is the root of a space of its own. -/
theorem bulkTarget_traces (hstands : before.Stands schema false visible) (written : Phrase.Root) :
    Ends schema before (bulkTarget written) fun element after =>
      after.Stands schema false (element.seen visible)
        ∧ before.levels.Appends [.mk element []] after.levels := by
  refine ends_bind (openSpace_stands hstands) ?_
  rintro id first ⟨hfirst, opened, below, hlevels, hopened, rfl⟩
  refine ends_bind (openedRoot_traces hfirst hopened written) ?_
  rintro element second ⟨hsecond, hrooted⟩
  split
  · exact ends_throw_bind _ _
  · exact ends_pure ⟨hsecond, opened, opened, below, below, hlevels, hrooted,
      clauseSpreads_refl _, .refl _⟩

/-- A level with the target of a bulk statement and the clauses that refer to it. -/
theorem bulk_traces {α : Type} {written : Phrase.Root} {clauses : FromElement → Step α}
    {traces : List FromElement → α → Prop}
    (hclauses : ∀ element {context : Context} {seen : List FromElement},
      context.Stands schema true seen → Tracing true seen (traces seen) schema context
        (clauses element))
    (hspreads : ∀ element {context : Context},
      Moves schema False SpreadsAcross context (clauses element)) :
    Ends schema .empty (onLevel do clauses (← bulkTarget written)) fun value _ =>
      ∃ element more, value.2 = [.mk element more] ∧ traces (element.seen []) value.1 := by
  have hstart : Context.empty.openLevel.Stands schema false [] :=
    ⟨(Context.Sound.empty schema False).openLevel, rfl, fun h => by cases h⟩
  refine ends_onLevel (ends_bind (bulkTarget_traces hstart written) ?_)
  rintro element first ⟨hfirst, happends⟩
  refine ends_mono (ends_both (hclauses element hfirst.inBulk) (hspreads element).ends) ?_
  rintro value last ⟨⟨-, hvalue⟩, hspread⟩ spaces hclose
  obtain ⟨finished, hfinished, hspaces⟩ := happends.finished hspread
  rw [hfinished] at hclose
  cases hclose
  obtain ⟨space, rest, ⟨more, rfl, -⟩, hnil, rfl⟩ := List.forall₂_cons_left_iff.mp hspaces
  cases hnil
  exact ⟨element, more, rfl, hvalue⟩

/-- A target to which nothing is joined is seen as its root is. -/
theorem singleSpace_seen {element : FromElement} {more : List Resolved.Join} :
    Ends schema before (ofExcept (singleSpace [.mk element more])) fun space after =>
      before = after ∧ space.seen [] = element.seen [] := by
  refine ends_ofExcept fun space hsingle => ⟨rfl, ?_⟩
  obtain ⟨hspace, hjoins⟩ := singleSpace_ok hsingle
  cases hspace
  cases hjoins
  rfl

/-! ## Statements -/

theorem update_traces (target : Phrase.Root) (assignments : List Phrase.Assignment)
    (condition : Option Phrase.Predicate) :
    Ends schema .empty (update target assignments condition) fun node _ =>
      (Phrase.Statement.update target assignments condition).Traces node := by
  have motion := spreadMotion schema fun _ => True
  have hclauses : ∀ (_ : FromElement) {context : Context} {seen : List FromElement},
      context.Stands schema true seen →
      Tracing true seen (fun clauses => List.Forall₂
          (fun written node => written.value.Traces true seen node.value) assignments clauses.1
        ∧ Phrase.restrictionTraces true seen condition clauses.2) schema context (do
        let assignments ← assignments.mapM assignment
        let condition ← bulkRestriction condition
        return (assignments, condition)) := by
    intro _ context seen hcontext
    exact two_trace
      (mapM_trace hcontext fun written _ hinner => assignment_traces hinner written)
      (fun hbetween => bulkRestriction_traces hbetween condition)
      fun _ _ hassigned hrestriction => ⟨hassigned, hrestriction⟩
  refine ends_bind (bulk_traces hclauses fun _ _ => moves_bind motion.trans
      (mapM_moves motion.refl motion.trans fun written _ _ => assignment_moves motion
        (written.value.meets treating_always))
      fun _ _ _ => moves_bind motion.trans (bulkRestriction_moves motion
        (Phrase.restriction_meets treating_always condition))
        fun _ _ _ => moves_pure motion.refl _) ?_
  rintro ⟨⟨assigned, restriction⟩, spaces⟩ last ⟨element, more, rfl, hassigned, hrestriction⟩
  refine ends_bind singleSpace_seen ?_
  rintro space _ ⟨rfl, hseen⟩
  rw [← hseen] at hassigned hrestriction
  exact ends_pure ⟨space, assigned, restriction, rfl, hassigned, hrestriction⟩

theorem delete_traces (target : Phrase.Root) (condition : Option Phrase.Predicate) :
    Ends schema .empty (delete target condition) fun node _ =>
      (Phrase.Statement.delete target condition).Traces node := by
  have motion := spreadMotion schema fun _ => True
  refine ends_bind (bulk_traces (fun _ _ _ hcontext => bulkRestriction_traces hcontext condition)
    fun _ _ => bulkRestriction_moves motion
      (Phrase.restriction_meets treating_always condition)) ?_
  rintro ⟨restriction, spaces⟩ last ⟨element, more, rfl, hrestriction⟩
  refine ends_bind singleSpace_seen ?_
  rintro space _ ⟨rfl, hseen⟩
  rw [← hseen] at hrestriction
  exact ends_pure ⟨space, restriction, rfl, hrestriction⟩

/-- The query of an insertion sees nothing of its target. -/
theorem insert_traces (target : DottedName) (fields : List DottedName) (written : Phrase.Query) :
    Ends schema .empty (insert target fields written) fun node _ =>
      (Phrase.Statement.insert target fields written).Traces node := by
  have motion := keepingMotion schema fun _ => True
  have hrestored : Moves schema False Context.Restored .empty (onLevel do
      let element ← bulkTarget ⟨target, none⟩
      under .bulk (fields.mapM fun field => stateField ⟨element.aliasName :: field.parts⟩)) :=
    bulk_moves motion restoredLeaving _ fun _ _ => under_moves motion _ <|
      mapM_moves motion.refl motion.trans fun _ _ _ => stateField_moves motion _
  refine ends_bind (ends_both hrestored.ends (bulk_ends (fun h => h.elim) (.empty schema False)
    (insertFields_build fields))) ?_
  rintro ⟨values, spaces⟩ between ⟨hleft, hadvances, -⟩
  have hstands : between.Stands schema true [] := by
    refine ⟨hadvances.sound, ?_, fun _ => rfl⟩
    rw [Context.declared, hleft.trail]
    rfl
  refine ends_bind (query_traces written false hstands) ?_
  rintro select last ⟨-, hselect⟩
  refine ends_bind (ends_ofExcept (Q := fun _ _ => True) fun _ _ => trivial) ?_
  exact fun space _ _ => ends_pure ⟨space, values, select, rfl, hselect⟩

/-- The paths of a statement are traced in what it means. -/
theorem statement_traces (written : Phrase.Statement) :
    Ends schema .empty (statement written) fun node _ => written.Traces node := by
  cases written with
  | select query =>
    have hstands : Context.empty.Stands schema true [] :=
      ⟨.empty schema False, rfl, fun _ => rfl⟩
    refine ends_bind (query_traces query false hstands) ?_
    exact fun select _ h => ends_pure ⟨select, rfl, h.2⟩
  | update target assignments condition => exact update_traces target assignments condition
  | delete target condition => exact delete_traces target condition
  | insert target fields query => exact insert_traces target fields query

end Step
end EntityQuery.Interpretation

namespace EntityQuery

open Interpretation Resolved

/-! ## Ways over implicit joins -/

namespace FromElement.ImplicitWay

variable {elements : List FromElement} {origin : FromElement} {names : List String}

/-- A way to one of the elements starts from one of them. -/
theorem origin_mem {element : FromElement} (h : origin.ImplicitWay names element)
    (hclosed : ∀ other ∈ elements, other.chain ⊆ elements) (hmem : element ∈ elements) :
    origin ∈ elements := by
  induction names generalizing origin with
  | nil => exact h ▸ hmem
  | cons name names ih =>
    obtain ⟨join, hstep, hrest⟩ := h
    exact hclosed join (ih hrest) (source_mem_chain hstep)

/-- Where there is one implicit join for each source and attribute, names lead to one element. -/
theorem unique {one other : FromElement} (h : origin.ImplicitWay names one)
    (h' : origin.ImplicitWay names other) (hclosed : ∀ join ∈ elements, join.chain ⊆ elements)
    (honce : ∀ first ∈ elements, ∀ second ∈ elements, ∀ source name,
      first.implicitStep? = some (source, name) → second.implicitStep? = some (source, name) →
        first = second)
    (hone : one ∈ elements) (hother : other ∈ elements) : one = other := by
  induction names generalizing origin with
  | nil => exact Eq.trans h (Eq.symm h')
  | cons name names ih =>
    obtain ⟨first, hfirst, hrest⟩ := h
    obtain ⟨second, hsecond, hrest'⟩ := h'
    obtain rfl := honce first (hrest.origin_mem hclosed hone) second
      (hrest'.origin_mem hclosed hother) origin name hfirst hsecond
    exact ih hrest hrest'

end FromElement.ImplicitWay

/-! ## Implicit joins of a statement -/

namespace Interpretation.Context.Sound

variable {schema : Schema} {clean : Prop} {context : Context}

/-- Two registered implicit joins over one attribute of one source are the same. -/
theorem shared (h : context.Sound schema clean) {one other source start : FromElement}
    {name : String} (hone : one ∈ context.registered) (hother : other ∈ context.registered)
    (hstep : one.implicitStep? = some (source, name))
    (hstep' : other.implicitStep? = some (start, name)) (huid : source.uid = start.uid) :
    one = other := by
  have hsource := h.closed one hone (FromElement.source_mem_chain hstep)
  have hstart := h.closed other hother (FromElement.source_mem_chain hstep')
  obtain rfl := h.unique source hsource start hstart huid
  exact h.unique one hone other hother (h.recalls.same_uid hone hother hstep hstep')

end Interpretation.Context.Sound

/-- What is required of the spaces of a query: each implicit join stands behind its source. -/
def trailingRules : Rules where
  select node := ∀ space ∈ node.spaces, FromElement.Trailing space.elements

/-- The implicit joins of the statement are shared. -/
structure Resolved.Statement.SharesJoins (statement : Statement) : Prop where
  /-- There is one implicit join for each source and attribute. -/
  once : ∀ one ∈ statement.elements, ∀ other ∈ statement.elements, ∀ source start name,
    one.implicitStep? = some (source, name) → other.implicitStep? = some (start, name) →
      source.uid = start.uid → one = other
  /-- It stands in one place of the statement. -/
  placed : ∀ join ∈ statement.elements, join.isImplicit = true →
    statement.boundElements.count join = 1
  /-- This place is in the space of the source without its narrowings, and after it. -/
  trailing : statement.Holds trailingRules
  /-- The target of a bulk statement has no joins. -/
  bare : ∀ target, statement.target? = some target → target.joins = []
  /-- Names lead from an element over the same implicit joins wherever they are written. -/
  sameWay : ∀ (origin : FromElement) (names : List String), ∀ one ∈ statement.elements,
    ∀ other ∈ statement.elements, origin.ImplicitWay names one → origin.ImplicitWay names other →
      one = other

theorem Interpretation.BuiltStatement.sharesJoins {schema : Schema} {clean : Prop}
    {statement : Statement} {context : Context}
    (h : BuiltStatement schema clean statement context) : statement.SharesJoins where
  once one hone other hother source start name hstep hstep' huid :=
    h.sound.shared (h.reached hone).1 (h.reached hother).1 hstep hstep' huid
  placed join hjoin himplicit := by
    have hunwrapped : join.unwrapped = join := by
      cases join with
      | treated binding wrapped => cases himplicit
      | _ => rfl
    have hcount := h.bound_once hjoin
    rwa [hunwrapped] at hcount
  trailing := by
    refine h.holds.mono ?_
    exact {
      element := fun _ _ => trivial
      reference := fun _ => trivial
      indexed := fun _ => trivial
      expression := fun _ => trivial
      predicate := fun _ => trivial
      subquery := fun _ => trivial
      select := fun hrule => hrule.2.2.2.2 }
  bare := h.bare
  sameWay origin names one hone other hother hway hway' :=
    hway.unique hway' h.sound.closed
      (fun _ hfirst _ hsecond _ _ hstep hstep' => h.sound.shared hfirst hsecond hstep hstep' rfl)
      (h.reached hone).1 (h.reached hother).1

/-- Implicit joins are shared by all clauses and nested queries of a statement. There is at most one
for each source and attribute, and it stands behind its source in the same space. A path that starts
with a variable and ends in an attribute takes it from the implicit joins over the names between,
in every clause but those of a bulk statement and except behind an index, even if the same attribute
is joined explicitly. -/
theorem interpretPhrase_sharesJoins {phrase : Phrase.Statement} {schema : Schema}
    {meaning : Meaning} (h : interpretPhrase phrase schema = .ok meaning) :
    meaning.statement.SharesJoins ∧ phrase.Traces meaning.statement := by
  have hplain : False → phrase.Plain := False.elim
  obtain ⟨context, hbuilt, -⟩ := interpretPhrase_built hplain h
  refine ⟨hbuilt.sharesJoins, ?_⟩
  unfold interpretPhrase at h
  split at h
  · rename_i statement after hrun
    cases h
    exact Step.statement_traces phrase statement after hrun
  · cases h

/-- The labels of the front shelves of libraries. The attribute is joined explicitly as well, and a
nested query goes through it again. -/
def frontLabelsText : String :=
  "select l.front.label from Library l join l.front f "
    ++ "where exists (select 1 from Shelf s where s.label = l.front.label and s = f)"

/-- The attributes of the implicit joins of the meaning, and of the explicit ones. -/
def Interpretation.Meaning.joinedNames (meaning : Meaning) : List String × List String :=
  let joins := meaning.statement.boundElements.filterMap fun element =>
    element.join?.map fun join => (element.isImplicit, join.declared.name)
  ((joins.filter Prod.fst).map Prod.snd, (joins.filter fun join => !join.1).map Prod.snd)

/-- Two paths go through one implicit join, beside an explicit one over the same attribute. -/
theorem interpretPhrase_sharesJoins_front :
    ∃ phrase meaning, Phrase.Statement.ofText frontLabelsText = .ok phrase
      ∧ interpretPhrase phrase shelving.schema = .ok meaning
      ∧ meaning.statement.SharesJoins ∧ phrase.Traces meaning.statement
      ∧ meaning.joinedNames = (["front"], ["front"]) := by
  have hpasses : (interpret frontLabelsText shelving.schema).toOption.any
      (fun meaning => meaning.joinedNames == (["front"], ["front"])) = true := by
    decide +kernel
  obtain ⟨phrase, meaning, hread, hmeaning, hnames⟩ := interpret_passes hpasses
  obtain ⟨hshares, htraces⟩ := interpretPhrase_sharesJoins hmeaning
  exact ⟨phrase, meaning, hread, hmeaning, hshares, htraces, eq_of_beq hnames⟩

end EntityQuery

import EntityQuery.Proofs.AdvisedQueries
import EntityQuery.Proofs.WellTyped

/-!
# The advisories of a meaning

The books of a statement are those of its clauses. Nothing is advised before it is interpreted, and
no space is open afterwards, so that its advisories are those about its expressions and about the
queries of the phrase.

* `Step.bulk_books`: the level of a bulk statement.
* `Step.statement_books`: the books of a statement, for one code.
* `interpretPhrase_advisories`: the advisories of a meaning.
-/

namespace EntityQuery.Interpretation

open Resolved (Assignment AttributeReference spaceNodes)

namespace Step

variable {α β : Type} {code : Report.Code} {schema : Schema} {before : Context}

/-! ## Clauses of bulk statements -/

theorem mapM_balances {items : List β} {visit : β → Step α} {parts : β → List Phrase.Part}
    {nodes : α → List Resolved.Expression} (hsound : before.Sound schema False)
    (hvisit : ∀ item ∈ items, ∀ {context : Context}, context.Sound schema False →
      Balances code 0 (parts item) (fun value => due code (nodes value)) schema context
        (visit item)) :
    Balances code 0 (items.flatMap parts) (fun values => due code (values.flatMap nodes)) schema
      before (items.mapM visit) := by
  induction items generalizing before with
  | nil => exact balances_pure hsound rfl
  | cons item items ih =>
    rw [List.mapM_cons, List.flatMap_cons]
    obtain ⟨hfirst, hrest⟩ := List.forall_mem_cons.mp hvisit
    refine balances_bind (hfirst hsound) fun value _ hvalue => ?_
    exact balances_last (ih hvalue hrest) fun values => by simp

theorem stateField_balances (hsound : before.Sound schema False) (field : DottedName) :
    Balances code 0 [] (fun value => due code value.nodes) schema before (stateField field) := by
  refine balances_spread (stateField_quiet field)
    (stateField_moves (spreadMotion schema fun _ => True) field)
    (ends_mono (stateField_builds hsound field) fun _ _ h => h.1.sound) ?_
  have hpath : Ends schema before (path field) fun value _ => due code value.nodes = 0 :=
    path_due field
  refine ends_bind hpath fun value _ hvalue => ?_
  split
  · rw [due_reference] at hvalue
    exact ends_pure hvalue
  · exact ends_throw _

theorem assignment_balances (hsound : before.Sound schema False) (written : Phrase.Assignment) :
    Balances code 0 written.value.parts (fun value => due code value.nodes) schema before
      (assignment written) :=
  balances_under hsound fun hcontext =>
    balances_bind (stateField_balances hcontext written.path) fun _ _ htarget =>
      balances_last (expression_balances written.value htarget) fun _ => by
        simp [Assignment.nodes]

theorem bulkRestriction_balances (hsound : before.Sound schema False)
    (condition : Option Phrase.Predicate) :
    Balances code 0 (Phrase.restrictionParts condition)
      (fun value => due code (Resolved.restrictionNodes value)) schema before
      (bulkRestriction condition) := by
  cases condition with
  | none => exact balances_pure hsound rfl
  | some written =>
    have hwritten : Balances code 0 written.parts (fun value => due code value.nodes) schema before
        (under .bulk (predicate written)) :=
      balances_under hsound fun hcontext => predicate_balances written hcontext
    exact balances_last hwritten fun _ => by simp [Resolved.restrictionNodes]

/-! ## Statements -/

theorem bulkTarget_balances (hsound : before.Sound schema False) (written : Phrase.Root) :
    Balances code 0 [] (fun _ => 0) schema before (bulkTarget written) := by
  refine openRoot_bind code hsound fun id element rooted hrooted hlast hadvised hheld => ?_
  split
  · exact ends_throw_bind _ _
  · refine ends_pure ⟨hrooted, ?_⟩
    rw [hadvised, hheld, omitted_nil]
    rfl

/-- The target of a bulk statement is moved into the result when its level is left. -/
theorem bulk_books {written : Phrase.Root} {clauses : FromElement → Step α}
    {parts : List Phrase.Part} {weight : α → Nat} (hsound : before.Sound schema False)
    (hclauses : ∀ element {context : Context}, context.Sound schema False →
      Balances code 0 parts weight schema context (clauses element)) :
    Ends schema before (onLevel do clauses (← bulkTarget written)) fun value after =>
      after.advised code + before.held code = before.advised code + omitted code parts
        + (due code (spaceNodes value.2) + weight value.1) + after.held code := by
  have hlevel : Balances code 0 parts weight schema before.openLevel
      (do clauses (← bulkTarget written)) :=
    balances_after (bulkTarget_balances hsound.openLevel written) fun element _ hbetween =>
      hclauses element hbetween
  exact ends_mono (onLevel_books (P := fun _ => True) hlevel fun _ _ _ => trivial)
    fun _ _ h => h.2

/-- Nothing is held when no from clause is open. -/
theorem held_of_advances {bound : List FromElement} {after : Context}
    (h : Context.empty.Advances schema False bound after) : after.held code = 0 := by
  rw [Context.held, h.levels_eq_nil]
  rfl

/-- The bulk statement is about its single space and its clauses. -/
theorem singleSpace_bind {spaces : List Resolved.Space} {next : Resolved.Space → β}
    {Q : β → Context → Prop} (h : ∀ space, spaceNodes spaces = space.nodes → Q (next space) before) :
    Ends schema before (do
      let space ← ofExcept (singleSpace spaces)
      return next space) Q := by
  refine ends_bind (ends_ofExcept (Q := fun space after => before = after ∧ spaces = [space])
    fun space hsingle => ⟨rfl, (singleSpace_ok hsingle).1⟩) ?_
  rintro space _ ⟨rfl, rfl⟩
  exact ends_pure (h space (by simp [spaceNodes]))

/-- The books of a query that is not nested in an expression. -/
theorem query_books (code : Report.Code) (written : Phrase.Query)
    (hsound : before.Sound schema False) :
    Ends schema before (query written false) fun select after =>
      before.Advances schema False select.boundElements after
        ∧ after.advised code + before.held code = before.advised code
          + (noted code written.advisory? + omitted code written.parts) + due code select.nodes
          + after.held code := by
  have hbooks : Balances code 0 (Phrase.Expression.subquery written).parts
      (fun select => due code select.nodes) schema before (query written false) :=
    query_balances written false hsound
  refine ends_mono (ends_both hbooks (query_builds written false (fun h => h.elim) hsound)) ?_
  rintro select after ⟨⟨-, hbooks⟩, hadvances, -⟩
  rw [Phrase.Expression.parts, omitted_cons] at hbooks
  exact ⟨hadvances, hbooks⟩

/-- The advisories about the queries of a statement, counted at the query on top and in the parts. -/
theorem count_queries (written : Phrase.Statement) :
    (written.queries.filterMap Phrase.Query.advisory?).count code
      = noted code (written.query?.bind Phrase.Query.advisory?) + omitted code written.parts := by
  have hparts : (written.parts.filterMap Phrase.Part.query?).filterMap Phrase.Query.advisory?
      = written.parts.filterMap Phrase.Part.advisory? := List.filterMap_filterMap ..
  rw [Phrase.Statement.queries, List.filterMap_append, hparts, List.count_append, omitted]
  cases written.query? with
  | none => rfl
  | some query => simp [count_filterMap_cons]

/-- Nothing has been advised, and no from clause is open, before a statement. -/
theorem empty_books (code : Report.Code) :
    Context.empty.advised code = 0 ∧ Context.empty.held code = 0 := ⟨rfl, rfl⟩

theorem update_books (code : Report.Code) (target : Phrase.Root)
    (assignments : List Phrase.Assignment) (condition : Option Phrase.Predicate) :
    Ends schema .empty (update target assignments condition) fun result after =>
      after.advised code = omitted code (Phrase.Statement.update target assignments condition).parts
        + due code result.nodes := by
  have hempty : Context.empty.Sound schema False := .empty schema False
  have hclauses : ∀ {context : Context}, context.Sound schema False →
      Balances code 0 (assignments.flatMap (fun assignment => assignment.value.parts)
          ++ Phrase.restrictionParts condition)
        (fun clauses : UpdateClauses => due code (clauses.1.flatMap Assignment.nodes)
          + due code (Resolved.restrictionNodes clauses.2)) schema context (do
        let assignments ← assignments.mapM assignment
        let condition ← bulkRestriction condition
        return (assignments, condition)) := by
    intro context hcontext
    refine balances_bind (mapM_balances hcontext fun written _ _ hitem =>
      assignment_balances hitem written) fun values _ hvalues => ?_
    exact balances_last (bulkRestriction_balances hvalues condition) fun _ => by simp
  refine ends_bind (ends_both (bulk_books hempty fun _ _ hcontext => hclauses hcontext)
    (bulk_ends (fun h => h.elim) hempty fun _ _ hcontext =>
      updateClauses_build (fun h => h.elim) (fun h => h.elim) hcontext)) ?_
  rintro ⟨⟨values, restriction⟩, spaces⟩ after ⟨hbooks, hadvances, -⟩
  refine singleSpace_bind fun space hspace => ?_
  have hheld : after.held code = 0 := held_of_advances hadvances
  obtain ⟨hadvised, hnone⟩ := empty_books code
  dsimp only at hbooks
  rw [hspace] at hbooks
  simp only [Phrase.Statement.parts, Resolved.Statement.nodes, due_append]
  omega

theorem delete_books (code : Report.Code) (target : Phrase.Root)
    (condition : Option Phrase.Predicate) :
    Ends schema .empty (delete target condition) fun result after =>
      after.advised code = omitted code (Phrase.Statement.delete target condition).parts
        + due code result.nodes := by
  have hempty : Context.empty.Sound schema False := .empty schema False
  have hclauses : ∀ {context : Context}, context.Sound schema False →
      Balances code 0 (Phrase.restrictionParts condition)
        (fun value => due code (Resolved.restrictionNodes value)) schema context
        (bulkRestriction condition) := fun hcontext => bulkRestriction_balances hcontext condition
  refine ends_bind (ends_both (bulk_books hempty fun _ _ hcontext => hclauses hcontext)
    (bulk_ends (fun h => h.elim) hempty fun _ _ hcontext =>
      bulkRestriction_builds (fun h => h.elim) hcontext)) ?_
  rintro ⟨restriction, spaces⟩ after ⟨hbooks, hadvances, -⟩
  refine singleSpace_bind fun space hspace => ?_
  have hheld : after.held code = 0 := held_of_advances hadvances
  obtain ⟨hadvised, hnone⟩ := empty_books code
  dsimp only at hbooks
  rw [hspace] at hbooks
  simp only [Phrase.Statement.parts, Resolved.Statement.nodes, due_append]
  omega

/-- The query of an insertion is read when the level of the target has been left. -/
theorem insert_books (code : Report.Code) (target : DottedName) (fields : List DottedName)
    (written : Phrase.Query) :
    Ends schema .empty (insert target fields written) fun result after =>
      after.advised code = noted code written.advisory?
        + omitted code (Phrase.Statement.insert target fields written).parts
        + due code result.nodes := by
  have hempty : Context.empty.Sound schema False := .empty schema False
  have hclauses : ∀ (element : FromElement) {context : Context}, context.Sound schema False →
      Balances code 0 [] (fun values => due code (values.flatMap AttributeReference.nodes)) schema
        context (under .bulk (fields.mapM fun field =>
          stateField ⟨element.aliasName :: field.parts⟩)) := by
    intro element context hcontext
    refine balances_under hcontext fun hunder => ?_
    exact (mapM_balances hunder fun field _ _ hfield => stateField_balances hfield _).of_eq rfl
      (congrArg (omitted code) (List.flatMap_eq_nil_iff.mpr fun _ _ => rfl))
  refine ends_bind (ends_both (bulk_books hempty hclauses)
    (bulk_ends (fun h => h.elim) hempty (insertFields_build fields))) ?_
  rintro ⟨values, spaces⟩ between ⟨hbooks, hadvances, -⟩
  refine ends_bind (query_books code written hadvances.sound) ?_
  rintro select after ⟨hlater, hquery⟩
  refine singleSpace_bind fun space hspace => ?_
  have hbetween : between.held code = 0 := held_of_advances hadvances
  have hafter : after.held code = 0 := held_of_advances (hadvances.trans hlater)
  obtain ⟨hadvised, hnone⟩ := empty_books code
  dsimp only at hbooks
  rw [hspace, omitted_nil] at hbooks
  simp only [Phrase.Statement.parts, Resolved.Statement.nodes, due_append]
  omega

/-- From the empty state on, each advisory is about an expression of the meaning or about a query of
the phrase. -/
theorem statement_books (code : Report.Code) (written : Phrase.Statement) :
    Ends schema .empty (statement written) fun result after =>
      after.advised code = (written.queries.filterMap Phrase.Query.advisory?).count code
        + due code result.nodes := by
  simp only [count_queries]
  cases written with
  | select query =>
    refine ends_bind (query_books code query (.empty schema False)) ?_
    rintro select after ⟨hadvances, hbooks⟩
    have hheld : after.held code = 0 := held_of_advances hadvances
    obtain ⟨hadvised, hnone⟩ := empty_books code
    refine ends_pure ?_
    simp only [Phrase.Statement.query?, Option.bind_some, Phrase.Statement.parts,
      Resolved.Statement.nodes]
    omega
  | update target assignments condition =>
    refine ends_mono (update_books code target assignments condition) fun result after hbooks => ?_
    change after.advised code = 0 + omitted code _ + due code result.nodes
    rw [Nat.zero_add]
    exact hbooks
  | delete target condition =>
    refine ends_mono (delete_books code target condition) fun result after hbooks => ?_
    change after.advised code = 0 + omitted code _ + due code result.nodes
    rw [Nat.zero_add]
    exact hbooks
  | insert target fields query => exact insert_books code target fields query

end Step
end EntityQuery.Interpretation

namespace EntityQuery

open Interpretation

/-- The advisories of a meaning are one for each query of the phrase without a select clause, one
for each call of its expressions that is no standard one, and one for each function of a collection
other than its size and the index of a join. There are no others. -/
theorem interpretPhrase_advisories {phrase : Phrase.Statement} {schema : Schema}
    {meaning : Meaning} (h : interpretPhrase phrase schema = .ok meaning) :
    (meaning.advisories.map Report.Advisory.code).Perm
      (phrase.queries.filterMap Phrase.Query.advisory?
        ++ meaning.statement.nodes.filterMap Resolved.Expression.advisory?) := by
  unfold interpretPhrase at h
  split at h
  · rename_i statement context hrun
    cases h
    refine List.perm_iff_count.mpr fun code => ?_
    rw [List.count_append]
    exact Step.statement_books code phrase statement context hrun
  · cases h

/-- Two queries without select clauses, one in the other, with functions of both kinds. -/
def advisedText : String :=
  "from Library l where soundex(l.front.label) = maxindex(l.shelves) "
    ++ "and exists (from Shelf s where size(l.shelves) > 1)"

theorem interpretPhrase_advisories_nested :
    ∃ phrase meaning, Phrase.Statement.ofText advisedText = .ok phrase
      ∧ interpretPhrase phrase shelving.schema = .ok meaning
      ∧ meaning.advisories.map Report.Advisory.code
        = [.implicitSelect, .nonStandardFunction, .collectionFunction, .implicitSelect]
      ∧ (meaning.advisories.map Report.Advisory.code).Perm
        (phrase.queries.filterMap Phrase.Query.advisory?
          ++ meaning.statement.nodes.filterMap Resolved.Expression.advisory?) := by
  have hpasses : (interpret advisedText shelving.schema).toOption.any (fun meaning =>
      meaning.advisories.map Report.Advisory.code
        == [.implicitSelect, .nonStandardFunction, .collectionFunction, .implicitSelect]) = true := by
    decide +kernel
  obtain ⟨phrase, meaning, hread, hmeaning, hcodes⟩ := interpret_passes hpasses
  exact ⟨phrase, meaning, hread, hmeaning, eq_of_beq hcodes, interpretPhrase_advisories hmeaning⟩

end EntityQuery

import EntityQuery.Proofs.MovedQueries

/-!
# States that statements leave

A bulk statement fills a from clause with its target and follows paths in its clauses, so that it
changes the state as queries do.

* `Step.statement_moves`: a statement respects every relation that holds across a level that was
  left.
* `depthMotion`: no step leaves a from clause open.
* `interpretPhrase_lenient`: only the strict language has breaches.
-/

namespace EntityQuery.Interpretation

namespace Step

variable {schema : Schema} {before : Context} {treat : DottedName → Prop}
  {outer inner : Context → Context → Prop}

theorem singleSpace_stays (spaces : List Resolved.Space) :
    Stays schema False before (ofExcept (singleSpace spaces)) := by
  refine moves_ofExcept refl_eq fun breach hfault => ?_
  unfold singleSpace at hfault
  split at hfault
  · split at hfault <;> cases hfault
  · cases hfault

theorem mapM_moves {α β : Type} {R : Context → Context → Prop}
    (hrefl : ∀ context, R context context)
    (htrans : ∀ first second third, R first second → R second third → R first third)
    {items : List β} {visit : β → Step α}
    (h : ∀ item ∈ items, ∀ {context : Context}, Moves schema False R context (visit item)) :
    Moves schema False R before (items.mapM visit) := by
  induction items generalizing before with
  | nil =>
    rw [List.mapM_nil]
    exact moves_pure hrefl _
  | cons item items ih =>
    rw [List.mapM_cons]
    refine moves_bind htrans (h item List.mem_cons_self) fun _ _ _ => ?_
    refine moves_bind htrans (ih fun other hother => h other (List.mem_cons_of_mem _ hother))
      fun _ _ _ => moves_pure hrefl _

variable (motion : Motion schema treat outer inner)
include motion

theorem stateField_moves (field : DottedName) :
    Moves schema False outer before (stateField field) := by
  refine moves_bind motion.trans (path_moves motion field) fun value _ _ => ?_
  split
  · exact moves_pure motion.refl _
  · exact moves_throw motion.refl nofun

theorem assignment_moves {written : Phrase.Assignment}
    (h : written.value.Meets (treating treat)) :
    Moves schema False outer before (assignment written) :=
  under_moves motion _ <|
    moves_bind motion.trans (stateField_moves motion _) fun _ _ _ =>
      moves_bind motion.trans (expression_moves motion written.value h)
        fun _ _ _ => moves_pure motion.refl _

theorem bulkRestriction_moves {condition : Option Phrase.Predicate}
    (h : Phrase.restrictionMeets (treating treat) condition) :
    Moves schema False outer before (bulkRestriction condition) := by
  cases condition with
  | none => exact moves_pure motion.refl _
  | some written =>
    exact moves_bind motion.trans (under_moves motion _ (predicate_moves motion written h))
      fun _ _ _ => moves_pure motion.refl _

theorem bulkTarget_moves (written : Phrase.Root) :
    Moves schema False inner before (bulkTarget written) := by
  refine moves_bind motion.transWithin (openSpace_moves motion) fun id opened hrun => ?_
  have hid := openSpace_current id opened hrun
  refine moves_bind motion.transWithin (root_moves motion hid written) fun element _ _ => ?_
  split
  · exact moves_throw_bind (inner_refl motion) nofun
  · exact moves_pure (inner_refl motion) _

variable {left : Context → Context → Prop} (hleaving : Leaving inner left)
include hleaving

/-- A level with the target of a bulk statement and the clauses that refer to it. -/
theorem bulk_moves {α : Type} (written : Phrase.Root) {clauses : FromElement → Step α}
    (h : ∀ element {context : Context}, Moves schema False outer context (clauses element)) :
    Moves schema False left before (onLevel do clauses (← bulkTarget written)) :=
  onLevel_moves hleaving <|
    moves_bind motion.transWithin (bulkTarget_moves motion written) fun element _ _ =>
      (h element).mono motion.within

theorem update_moves {target : Phrase.Root} {assignments : List Phrase.Assignment}
    {condition : Option Phrase.Predicate}
    (h : (Phrase.Statement.update target assignments condition).Meets (treating treat)) :
    Moves schema False left before (update target assignments condition) := by
  obtain ⟨-, hassignments, hcondition⟩ := h
  refine moves_bind hleaving.trans (bulk_moves motion hleaving target fun _ _ => ?_) fun _ _ _ =>
    stays_then hleaving.refl (singleSpace_stays _) fun _ _ => moves_pure hleaving.refl _
  refine moves_bind motion.trans (mapM_moves motion.refl motion.trans fun written hwritten _ =>
    assignment_moves motion (hassignments written hwritten)) fun _ _ _ => ?_
  exact moves_bind motion.trans (bulkRestriction_moves motion hcondition)
    fun _ _ _ => moves_pure motion.refl _

theorem delete_moves {target : Phrase.Root} {condition : Option Phrase.Predicate}
    (h : Phrase.restrictionMeets (treating treat) condition) :
    Moves schema False left before (delete target condition) :=
  moves_bind hleaving.trans
    (bulk_moves motion hleaving target fun _ _ => bulkRestriction_moves motion h)
    fun _ _ _ => stays_then hleaving.refl (singleSpace_stays _)
      fun _ _ => moves_pure hleaving.refl _

theorem insert_moves {target : DottedName} {fields : List DottedName} {written : Phrase.Query}
    (h : written.Meets (treating treat) false) :
    Moves schema False left before (insert target fields written) :=
  moves_bind hleaving.trans
    (bulk_moves motion hleaving ⟨target, none⟩ fun _ _ => under_moves motion _ <|
      mapM_moves motion.refl motion.trans fun _ _ _ => stateField_moves motion _)
    fun _ _ _ => moves_bind hleaving.trans (query_leaves motion hleaving h) fun _ _ _ =>
      stays_then hleaving.refl (singleSpace_stays _) fun _ _ => moves_pure hleaving.refl _

/-- A statement opens levels and leaves them, whatever its outcome. -/
theorem statement_moves (written : Phrase.Statement) (h : written.Meets (treating treat)) :
    Moves schema False left before (statement written) := by
  cases written with
  | select query =>
    exact moves_bind hleaving.trans (query_leaves motion hleaving h)
      fun _ _ _ => moves_pure hleaving.refl _
  | update target assignments condition => exact update_moves motion hleaving h
  | delete target condition => exact delete_moves motion hleaving h.2
  | insert target fields query => exact insert_moves motion hleaving h.2

end Step

/-! ## Open from clauses -/

/-- As many from clauses are open. -/
def SameDepth (before after : Context) : Prop := after.levels.length = before.levels.length

theorem fill_length {place : Place} {levels : Levels} {space : OpenSpace} (filled : OpenSpace)
    (h : levels = place.fill space) : (place.fill filled).length = levels.length := by
  simp [h, Place.fill]

/-- No step leaves a from clause open or closes one of another step. -/
theorem depthMotion (schema : Schema) (treat : DottedName → Prop) :
    Motion schema treat SameDepth SameDepth where
  refl _ := rfl
  trans _ _ _ h h' := Eq.trans h' h
  within _ _ h := h
  transWithin _ _ _ h h' := Eq.trans h' h
  depth _ _ h := h
  idle _ _ _ _ _ _ _ := rfl
  register _ _ _ := rfl
  bind _ _ _ _ _ := rfl
  joinImplicitly _ _ _ _ _ _ _ _ _ hopened _ := fill_length _ hopened
  resolve _ _ _ h := h
  nest before after h := by
    change after.levels.tail.length = before.levels.length
    rw [List.length_tail, h]
    rfl
  openSpace context id levels hopen := by
    change levels.length = context.levels.length
    cases hlevels : context.levels with
    | nil =>
      rw [hlevels] at hopen
      cases hopen
    | cons spaces below =>
      rw [hlevels] at hopen
      cases hopen
      rfl
  declare _ _ _ _ := rfl
  fill _ _ _ _ hopened _ := fill_length _ hopened
  select _ _ := rfl

end EntityQuery.Interpretation

namespace EntityQuery

open Interpretation

/-- Only the strict language has breaches. -/
theorem interpretPhrase_lenient {phrase : Phrase.Statement} {schema : Schema}
    (hstrict : schema.strict = false) (breach : Breach) :
    interpretPhrase phrase schema ≠ .error (.strict breach) := by
  have hmoves : Step.Moves schema False SameDepth .empty (Step.statement phrase) :=
    Step.statement_moves (depthMotion schema fun _ => True)
      (depthMotion schema fun _ => True).leaving phrase (phrase.meets Step.treating_always)
  have hlenient := hmoves.lenient hstrict breach
  unfold interpretPhrase
  split
  · intro hfault
    cases hfault
  · rename_i fault context hrun
    rw [hrun] at hlenient
    intro hfault
    cases hfault
    exact hlenient rfl

end EntityQuery

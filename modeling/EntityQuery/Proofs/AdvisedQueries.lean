import EntityQuery.Proofs.Advisories
import EntityQuery.Proofs.BuiltStatements
import EntityQuery.Proofs.FailedCalls
import EntityQuery.Proofs.QuietSteps
import EntityQuery.Proofs.RenderedPaths

/-!
# Advisories and what they are about

The advisories of a meaning are one for each construct that calls for one, and no others. They come
up while a query is read, before the expressions that they are about are finished, so the books are
kept for every step: the advisories that a step gives are those about queries in the phrase that
lack a select clause, about expressions of its result, and about expressions that it left in open
spaces. A restriction is moved from the result of a step into the space of its join, and the spaces
of a level are moved into the result when the level is left.

* `Step.Balances`: the books of a step, for one code.
* `Step.balances_seq`, `Step.balances_bind`: the books of steps put together.
* `Step.onLevel_books`: the books of a level that is left.
* `Step.expression_balances`, `Step.predicate_balances`, `Step.query_balances`: form by form.
-/

namespace EntityQuery.Interpretation

open Resolved (AttributeReference Expression IndexedReference PathSource callAdvisory?
  expressionNodes functionAdvisory? functionAdvisory?_eq joinNodes joinNodes_append)

/-- How many advisories have the code. -/
def Context.advised (context : Context) (code : Report.Code) : Nat :=
  (context.advisories.map Report.Advisory.code).count code

/-- How many expressions in open spaces an advisory with the code is about. -/
def Context.held (context : Context) (code : Report.Code) : Nat :=
  due code context.levels.nodes

theorem Context.NotesAlike.advised {before after : Context} (h : before.NotesAlike after)
    (code : Report.Code) : after.advised code = before.advised code := by
  rw [Context.advised, h.advisories, Context.advised]

namespace Step

/-- The books of a step for a code: `parts` are read, `weight` counts what the result is about, and
`given` what earlier results were about. -/
def Balances {α : Type} (code : Report.Code) (given : Nat) (parts : List Phrase.Part)
    (weight : α → Nat) (schema : Schema) (before : Context) (step : Step α) : Prop :=
  Ends schema before step fun value after => after.Sound schema False
    ∧ after.advised code + before.held code + given
      = before.advised code + omitted code parts + weight value + after.held code

variable {α β : Type} {code : Report.Code} {given : Nat} {parts more : List Phrase.Part}
  {schema : Schema} {before : Context}

/-! ## Steps put together -/

/-- The books of a code depend on numbers only. -/
theorem Balances.of_eq {given' : Nat} {weight : α → Nat} {step : Step α}
    (h : Balances code given parts weight schema before step) (hgiven : given = given')
    (hparts : omitted code parts = omitted code more) :
    Balances code given' more weight schema before step := by
  refine ends_mono h ?_
  rintro value after ⟨hsound, hbooks⟩
  exact ⟨hsound, by omega⟩

/-- What was given before may be given afterwards. -/
theorem Balances.frame {weight : α → Nat} {step : Step α}
    (h : Balances code 0 parts weight schema before step) (given : Nat) :
    Balances code given parts (fun value => given + weight value) schema before step := by
  refine ends_mono h ?_
  rintro value after ⟨hsound, hbooks⟩
  exact ⟨hsound, by dsimp only; omega⟩

/-- What the first step ends with is given to the second one. -/
theorem balances_seq {weight : α → Nat} {weight' : β → Nat} {first : Step α}
    {second : α → Step β} (hfirst : Balances code given parts weight schema before first)
    (hsecond : ∀ value between, between.Sound schema False →
      Balances code (weight value) more weight' schema between (second value)) :
    Balances code given (parts ++ more) weight' schema before (first >>= second) := by
  refine ends_bind hfirst ?_
  rintro value between ⟨hsound, hbooks⟩
  refine ends_mono (hsecond value between hsound) ?_
  rintro result after ⟨hafter, hlater⟩
  refine ⟨hafter, ?_⟩
  rw [omitted_append]
  omega

theorem balances_bind {weight : α → Nat} {weight' : β → Nat} {first : Step α}
    {second : α → Step β} (hfirst : Balances code 0 parts weight schema before first)
    (hsecond : ∀ value between, between.Sound schema False →
      Balances code (given + weight value) more weight' schema between (second value)) :
    Balances code given (parts ++ more) weight' schema before (first >>= second) :=
  balances_seq (hfirst.frame given) hsecond

/-- A part that is no nested query is not about an advisory. -/
theorem balances_part {part : Phrase.Part} {weight : α → Nat} {step : Step α}
    (hpart : part.advisory? = none) (h : Balances code given parts weight schema before step) :
    Balances code given (part :: parts) weight schema before step :=
  h.of_eq rfl (by rw [omitted_cons, hpart, noted_none, Nat.zero_add])

theorem balances_pure {weight : α → Nat} {value : α} (hsound : before.Sound schema False)
    (h : weight value = given) : Balances code given [] weight schema before (pure value) :=
  ends_pure ⟨hsound, by rw [h]; simp only [omitted_nil]; omega⟩

/-- A step that goes on with the result of another one and reads no parts. -/
theorem balances_then {weight : α → Nat} {weight' : β → Nat} {first : Step α}
    {second : α → Step β} (hfirst : Balances code given parts weight schema before first)
    (hsecond : ∀ value between, between.Sound schema False →
      Balances code (weight value) [] weight' schema between (second value)) :
    Balances code given parts weight' schema before (first >>= second) :=
  (balances_seq hfirst hsecond).of_eq rfl (by simp)

/-- A step that reads no parts before others. -/
theorem balances_after {weight : α → Nat} {weight' : β → Nat} {first : Step α}
    {second : α → Step β} (hfirst : Balances code given [] weight schema before first)
    (hsecond : ∀ value between, between.Sound schema False →
      Balances code (weight value) parts weight' schema between (second value)) :
    Balances code given parts weight' schema before (first >>= second) :=
  balances_seq hfirst hsecond

/-- A tree over the last of several parts. -/
theorem balances_last {weight : α → Nat} {weight' : β → Nat} {step : Step α} {combine : α → β}
    (hstep : Balances code 0 parts weight schema before step)
    (h : ∀ value, weight' (combine value) = given + weight value) :
    Balances code given parts weight' schema before (do
      let value ← step
      return combine value) :=
  balances_then (hstep.frame given) fun value _ hsound => balances_pure hsound (h value)

theorem balances_throw {weight : α → Nat} (fault : Fault) :
    Balances code given parts weight schema before (throw fault : Step α) :=
  ends_throw fault

theorem balances_get_bind {weight : β → Nat} {second : Context → Step β}
    (h : Balances code given parts weight schema before (second before)) :
    Balances code given parts weight schema before (get >>= second) :=
  h

/-- A quiet step that leaves in open spaces what was there. -/
theorem balances_quiet {weight : α → Nat} {step : Step α} (hquiet : Quiet step)
    (hends : Ends schema before step fun value after => after.Sound schema False
      ∧ after.held code = before.held code ∧ weight value = given) :
    Balances code given [] weight schema before step := by
  refine ends_mono (ends_both hquiet.ends hends) ?_
  rintro value after ⟨hnotes, hsound, hheld, hweight⟩
  have hadvised := hnotes.advised code
  refine ⟨hsound, ?_⟩
  rw [omitted_nil]
  omega

/-- A quiet step that follows paths. -/
theorem balances_spread {weight : α → Nat} {step : Step α} (hquiet : Quiet step)
    (hmoves : Moves schema False SpreadsAcross before step)
    (hsound : Ends schema before step fun _ after => after.Sound schema False)
    (hweight : Ends schema before step fun value _ => weight value = given) :
    Balances code given [] weight schema before step := by
  refine balances_quiet hquiet (ends_mono (ends_both hmoves.ends (ends_both hsound hweight)) ?_)
  rintro value after ⟨hspreads, hafter, hvalue⟩
  exact ⟨hafter, congrArg (due code) (Levels.Spreads.nodes hspreads), hvalue⟩

/-- A step that leaves the state. -/
theorem balances_stays {weight : α → Nat} {step : Step α} (hsound : before.Sound schema False)
    (hstays : Stays schema False before step)
    (hweight : Ends schema before step fun value _ => weight value = given) :
    Balances code given [] weight schema before step := by
  refine ends_mono (ends_both hstays.ends hweight) ?_
  rintro value _ ⟨rfl, hvalue⟩
  refine ⟨hsound, ?_⟩
  rw [omitted_nil]
  omega

theorem balances_under {weight : α → Nat} {resolver : Resolver} {step : Step α}
    (hsound : before.Sound schema False)
    (h : ∀ {context : Context}, context.Sound schema False →
      Balances code given parts weight schema context step) :
    Balances code given parts weight schema before (under resolver step) := by
  have hpush : before.Advances schema False [] (before.pushResolver resolver) :=
    hsound.idle _ before.style? before.advisories
  refine ends_under (ends_mono (h hpush.sound) ?_)
  rintro value after ⟨hafter, hbooks⟩
  exact ⟨(hafter.idle _ after.style? after.advisories).sound, hbooks⟩

/-! ## Expressions without operands -/

mutual

/-- The expressions in a path are those in its indices. -/
theorem due_attribute : ∀ attained : AttributeReference,
    due code attained.nodes = due code (expressionNodes attained.indices)
  | .mk source _ _ => due_source source

theorem due_source : ∀ source : PathSource,
    due code source.nodes = due code (expressionNodes source.indices)
  | .element _ => rfl
  | .indexed attained => due_indexed attained
  | .reference attained => due_attribute attained

theorem due_indexed : ∀ attained : IndexedReference,
    due code attained.nodes = due code (expressionNodes attained.indices)
  | .mk collection index _ => by
    simp [IndexedReference.nodes, IndexedReference.indices, expressionNodes,
      due_attribute collection]

end

theorem due_reference (attained : AttributeReference) :
    due code (Expression.reference attained).nodes = due code attained.nodes :=
  due_cons_none rfl _

/-- A path with one index is about what the index is about. -/
theorem due_of_indices {value index : Expression} (h : value.indices = [index]) :
    due code value.nodes = due code index.nodes := by
  have hindex : due code (expressionNodes [index]) = due code index.nodes := by
    simp [expressionNodes]
  cases value with
  | reference attained =>
    have hindices : attained.indices = [index] := h
    rw [due_reference, due_attribute, hindices, hindex]
  | indexed attained =>
    have hindices : attained.indices = [index] := h
    rw [← hindex, ← hindices, ← due_indexed]
    exact due_cons_none rfl _
  | _ => cases h

theorem navigate_due (element : FromElement) (names : List String) (path : DottedName) :
    Ends schema before (navigate element names path) fun value _ => due code value.nodes = 0 := by
  unfold navigate
  refine ends_bind (ends_checkReach (Q := fun _ _ => True) trivial) fun _ _ _ => ?_
  have hreference : ∀ attained : AttributeReference, attained.indices = [] →
      due code (Expression.reference attained).nodes = 0 := by
    intro attained hnone
    rw [due_reference, due_attribute, hnone]
    rfl
  split
  · exact ends_pure rfl
  · refine ends_get_bind ?_
    dsimp only
    split
    · refine ends_bind (composites_indices path (.element element) _ _ _)
        fun reached _ hreached => ?_
      refine ends_bind (attributeReference_indices _ _ _ _) fun attained _ hattained => ?_
      exact ends_pure (hreference attained (hattained.trans hreached))
    · refine ends_bind (Q := fun _ _ => True) (fun _ _ _ => trivial) fun source _ _ => ?_
      exact ends_bind (attributeReference_indices (.element source) _ _ _)
        fun attained _ hattained => ends_pure (hreference attained hattained)

theorem path_due (dotted : DottedName) :
    Ends schema before (path dotted) fun value _ => due code value.nodes = 0 := by
  unfold path
  split
  · exact ends_throw _
  refine ends_get_bind (ends_read_bind ?_)
  split
  · exact navigate_due _ _ _
  split
  · exact ends_pure rfl
  split
  · rename_i hconstant
    obtain ⟨owner, member, type, rfl⟩ := constant?_form hconstant
    exact ends_pure rfl
  refine ends_bind (ends_ofExcept (Q := fun _ _ => True) fun _ _ => trivial) fun owner? _ _ => ?_
  split
  · exact navigate_due _ _ _
  · exact ends_throw _

section

variable (hsound : before.Sound schema False)
include hsound

theorem literal_balances (token : Phrase.Literal) :
    Balances code 0 [] (fun value => due code value.nodes) schema before (literal token) := by
  refine balances_stays hsound (literal_stays token) ?_
  unfold literal
  split
  · exact ends_pure rfl
  · exact ends_throw _

theorem parameter_balances (written : Phrase.Parameter) :
    Balances code 0 [] (fun value => due code value.nodes) schema before (parameter written) := by
  have hsame : Ends schema before (parameter written) fun value after =>
      after.advisories = before.advisories ∧ after.levels = before.levels
        ∧ value = .parameter written := by
    refine ends_bind (ends_change (Q := fun _ after =>
      after.advisories = before.advisories ∧ after.levels = before.levels) fun after hnote => ?_)
      fun _ after h => ends_pure ⟨h.1, h.2, rfl⟩
    simp only [Context.noteParameter] at hnote
    split at hnote
    · cases hnote
    split at hnote
    · cases hnote
    cases hnote
    exact ⟨rfl, rfl⟩
  refine ends_mono (ends_both (parameter_builds hsound written) hsame) ?_
  rintro value after ⟨⟨hadvances, -⟩, hadvisories, hlevels, rfl⟩
  have hadvised : after.advised code = before.advised code := by
    simp only [Context.advised, hadvisories]
  have hheld : after.held code = before.held code := by simp only [Context.held, hlevels]
  exact ⟨hadvances.sound, by rw [hadvised, hheld]; rfl⟩

theorem pathOrCall_balances (dotted : DottedName) :
    Balances code 0 [] (fun value => due code value.nodes) schema before (pathOrCall dotted) := by
  refine balances_spread (pathOrCall_quiet dotted)
    (pathOrCall_moves (spreadMotion schema fun _ => True) dotted)
    (ends_mono (pathOrCall_builds hsound dotted) fun _ _ h => h.1.sound) (ends_get_bind ?_)
  split
  · exact ends_pure rfl
  · exact path_due dotted

theorem treated_balances (base target : DottedName) (remainder : Option DottedName) :
    Balances code 0 [] (fun value => due code value.nodes) schema before
      (treated base target remainder) := by
  refine balances_spread (treated_quiet base target remainder)
    (treated_moves (spreadMotion schema fun _ => True) base trivial remainder)
    (ends_mono (treated_builds hsound base target remainder) fun _ _ h => h.1.sound) ?_
  refine ends_bind (Q := fun _ _ => True) (fun _ _ _ => trivial) fun element _ _ => ?_
  refine ends_bind (Q := fun _ _ => True) (fun _ _ _ => trivial) fun narrowed _ _ => ?_
  split
  · exact ends_pure rfl
  · exact navigate_due _ _ _

theorem mapEntry_balances (function : MapFunction) (argument : DottedName) :
    Balances code 0 [] (fun value => due code value.nodes) schema before
      (mapEntry function argument) := by
  refine balances_spread (mapEntry_quiet function argument)
    (mapEntry_moves (spreadMotion schema fun _ => True) function argument)
    (ends_mono (mapEntry_builds hsound function argument) fun _ _ h => h.1.sound) ?_
  refine ends_bind (Q := fun _ _ => True) (fun _ _ _ => trivial) fun join _ _ => ?_
  split
  · exact ends_pure rfl
  · exact ends_bind (ends_comply (Q := fun _ _ => True) trivial) fun _ _ _ => ends_pure rfl
  · exact ends_pure rfl
  · exact ends_pure rfl
  · exact ends_throw _

/-- An element of an indexed collection is about what its index is about. -/
theorem indexed_balances (base : DottedName) (index : Expression)
    (remainder : Option DottedName) :
    Balances code (due code index.nodes) [] (fun value => due code value.nodes) schema before
      (indexed base index remainder) := by
  refine balances_spread (indexed_quiet base index remainder)
    (indexed_moves (spreadMotion schema fun _ => True) base index remainder) ?_
    (ends_mono (indexed_indices base index remainder) fun _ _ h => due_of_indices h)
  refine ends_bind (path_builds hsound base) ?_
  rintro value between ⟨hadvances, -⟩
  split
  · split
    · dsimp only
      split
      · exact ends_pure hadvances.sound
      · have hstays : ∀ indexed rest context,
            Stays schema False context (navigateIndexed indexed rest) :=
          fun indexed rest context => navigateIndexed_stays indexed rest
        refine ends_under (ends_mono (hstays _ _ _).ends ?_)
        rintro _ _ rfl
        exact hadvances.sound
    · exact ends_throw _
  · exact ends_throw _

/-! ## Calls -/

/-- An advisory is given before the expression that it is about is finished. -/
theorem advise_balances (violated : Bool) (breach : Breach) (given : Report.Code)
    (message : String) :
    Balances code 0 [] (fun _ => noted code (some given)) schema before (do
      comply violated breach
      modify fun context => context.advise given message) := by
  refine ends_bind (ends_comply (Q := fun _ after => before = after) rfl) ?_
  rintro _ _ rfl
  refine ends_modify ⟨(advise_advances hsound _ _).sound, ?_⟩
  have hadvised : (before.advise given message).advised code
      = before.advised code + noted code (some given) := by
    simp [Context.advised, Context.advise, noted]
  rw [hadvised]
  simp only [Context.held, Context.advise, omitted_nil]
  omega

theorem announceCollectionFunction_balances (function : CollectionFunction) :
    Balances code 0 []
      (fun _ => noted code (functionAdvisory? function))
      schema before (announceCollectionFunction function) := by
  unfold announceCollectionFunction
  rw [functionAdvisory?_eq]
  split
  · exact advise_balances hsound _ _ _ _
  · exact balances_pure hsound rfl

theorem announceCall_balances (name : String) (generic standard : Bool) :
    Balances code 0 []
      (fun _ => noted code (callAdvisory? standard))
      schema before (announceCall name generic standard) := by
  unfold announceCall
  cases standard with
  | true => exact balances_pure hsound rfl
  | false => exact advise_balances hsound _ _ _ _

/-- The index of a join needs no advisory. -/
theorem indexOfJoin_balances (argument : Phrase.Expression) :
    Balances code 0 argument.parts (fun value => due code value.nodes) schema before
      (indexOfJoin argument) := by
  have hpath : Balances code 0 [] (fun value => due code value.nodes) schema before
      (indexOfJoin argument) := by
    refine balances_spread (indexOfJoin_quiet argument)
      (indexOfJoin_moves (spreadMotion schema fun _ => True) argument)
      (ends_mono (indexOfJoin_builds hsound argument) fun _ _ h => h.1.sound) ?_
    unfold indexOfJoin
    split
    · refine ends_bind (Q := fun _ _ => True) (fun _ _ _ => trivial) fun join _ _ => ?_
      split
      · exact ends_pure rfl
      · exact ends_throw _
    · exact ends_throw _
  cases argument with
  | path dotted => exact hpath
  | _ => exact balances_throw _

/-- What was announced of a function of a collection is found in the expression. -/
theorem collectionFunction_balances (function : CollectionFunction) (argument : Expression) :
    Balances code
      (noted code (functionAdvisory? function) + due code argument.nodes) []
      (fun value => due code value.nodes) schema before (collectionFunction function argument) := by
  refine balances_stays hsound (collectionFunction_stays function argument) ?_
  unfold collectionFunction
  split
  · split
    · exact ends_bind (ends_ofExcept (Q := fun _ _ => True) fun _ _ => trivial) fun _ _ _ =>
        ends_pure (due_cons _ _)
    · exact ends_throw _
  · exact ends_throw _

/-- A plural operand is about what the expression is about that it is found in. -/
theorem pluralOperand_balances (form : PluralForm) (operand : Expression) :
    Balances code (due code operand.nodes) [] (fun collection => due code collection.nodes) schema
      before (pluralOperand form operand) := by
  refine balances_stays hsound (pluralOperand_stays form operand) ?_
  refine pluralOperand_ends fun collection hform _ => ?_
  rw [hform, due_reference]

end

/-- The step of an expression keeps the books. -/
abbrev BalancesExpression (code : Report.Code) (schema : Schema) (before : Context)
    (written : Phrase.Expression) : Prop :=
  Balances code 0 written.parts (fun value => due code value.nodes) schema before
    (expression written)

/-- A call is announced before its arguments are read. -/
theorem call_balances {name : String} {generic distinct star : Bool}
    {arguments : List Phrase.Expression} (hsound : before.Sound schema False)
    (hone : ∀ argument, arguments = [argument] → ∀ {between : Context},
      between.Sound schema False → BalancesExpression code schema between argument)
    (hall : ∀ {between : Context}, between.Sound schema False →
      Balances code 0 (Phrase.expressionsParts arguments)
        (fun values => due code (expressionNodes values)) schema between (expressions arguments)) :
    BalancesExpression code schema before (.call name generic distinct star arguments) := by
  refine balances_part rfl ?_
  simp only [expression]
  split
  · rename_i function hfunction
    refine balances_bind (announceCollectionFunction_balances hsound function)
      fun _ between hbetween => ?_
    split
    · rename_i argument
      split
      · rename_i hindex
        subst hindex
        exact (indexOfJoin_balances hbetween argument).of_eq rfl (by simp [Phrase.expressionsParts])
      · refine balances_bind (hone argument rfl hbetween) fun value after hafter => ?_
        exact (collectionFunction_balances hafter function value).of_eq (by simp) rfl
    · exact balances_throw _
  · refine balances_bind (announceCall_balances hsound name generic _) fun _ between hbetween => ?_
    refine balances_last (hall hbetween) fun values => ?_
    rw [Nat.zero_add]
    exact due_cons _ _

/-! ## From clauses -/

/-- A written join holds no expressions before it is restricted. -/
theorem Writes.held {element : FromElement} {after : Context} (h : Writes before element after)
    (code : Report.Code) : after.held code = before.held code := by
  obtain ⟨more, hgrows, hmore, -⟩ := h
  have hnodes : joinNodes (more ++ [.mk element none]) = [] := by
    rw [joinNodes_append, hmore.joinNodes]
    rfl
  rw [Context.held, hgrows.due_nodes, hnodes, due_nil, Nat.add_zero, Context.held]

theorem cross_balances {id : SpaceId} (hlast : before.levels.Last id)
    (hsound : before.Sound schema False) (written : Phrase.Root) :
    Balances code 0 [] (fun _ => 0) schema before (join id (.cross written)) := by
  have hquiet : Quiet (join id (.cross written)) :=
    quiet_bind (entity_quiet _) fun _ => quiet_bind (checkVariable_quiet _) fun _ =>
      quiet_bind (crossJoin_quiet _ _ _) fun _ => quiet_pure _
  have hends : Ends schema before (join id (.cross written)) fun _ after =>
      after.held code = before.held code := by
    refine ends_bind (ends_entity (Q := fun _ after => before = after) fun _ _ => rfl) ?_
    rintro entity _ rfl
    refine ends_bind (ends_checkVariable (Q := fun _ after => before = after) rfl) ?_
    rintro _ _ rfl
    exact ends_bind (crossJoin_writes hlast entity written.alias?) fun _ _ h =>
      ends_pure (h.held code)
  refine balances_quiet hquiet (ends_mono (ends_both
    (join_ends (.cross written) (fun h => h.elim) hsound hlast.level) hends) ?_)
  rintro _ after ⟨hadvances, hheld⟩
  exact ⟨hadvances.sound, hheld, rfl⟩

theorem member_balances {id : SpaceId} (hlast : before.levels.Last id)
    (hsound : before.Sound schema False) (path : DottedName) (alias? : Option String) :
    Balances code 0 [] (fun _ => 0) schema before (join id (.collection path alias?)) := by
  have hends : Ends schema before (memberJoin id path alias?) fun _ after =>
      after.held code = before.held code := by
    refine ends_bind (ends_checkVariable (Q := fun _ after => before = after) rfl) ?_
    rintro _ _ rfl
    have hmember : Moves schema False SpreadsAcross before (checkMember path) :=
      checkMember_moves (spreadMotion schema fun _ => True) path
    refine ends_bind hmember.ends fun _ between hspreads => ?_
    obtain ⟨more, hgrows, -⟩ := Levels.Spreads.grows hspreads hlast
    refine ends_bind (explicitJoin_writes (hgrows.last hlast) path alias? none .inner false)
      fun _ after hwrites => ends_pure ?_
    rw [hwrites.held code]
    exact congrArg (due code) (Levels.Spreads.nodes hspreads)
  refine balances_quiet (memberJoin_quiet id path alias?) (ends_mono (ends_both
    (memberJoin_ends hsound hlast.level path fun h => h.elim) hends) ?_)
  rintro _ after ⟨hadvances, hheld⟩
  exact ⟨hadvances.sound, hheld, rfl⟩

/-- The restriction of a join is put on the join that it was written for, and nowhere else. -/
theorem restricts_balances {id : SpaceId} (hlast : before.levels.Last id) {first : Context}
    {element : FromElement} (hwrites : Writes before element first)
    (hsound : first.Sound schema False) {written : Phrase.Predicate}
    (hwritten : ∀ {between : Context}, between.Sound schema False →
      Balances code 0 written.parts (fun value => due code value.nodes) schema between
        (predicate written)) :
    Ends schema first (do
      let condition ← under (.joinRestriction id) (predicate written)
      updateSpace id fun filled => .ok (filled.restrict element.uid condition)) fun _ after =>
        after.advised code + before.held code
          = first.advised code + omitted code written.parts + after.held code := by
  have hspreads : Moves schema False SpreadsAcross first
      (under (.joinRestriction id) (predicate written)) :=
    under_moves (spreadMotion schema fun _ => True) _
      (predicate_moves (spreadMotion schema fun _ => True) written (written.meets treating_always))
  refine ends_bind (ends_both (balances_under hsound hwritten) hspreads.ends) ?_
  rintro condition second ⟨⟨hsecond, hbooks⟩, hspreads⟩
  obtain ⟨front, rest, hgrows, hfront, hrest, -⟩ := hwrites.gains
  obtain ⟨more, hlater, hmore⟩ := Levels.Spreads.grows hspreads (hgrows.last hlast)
  have hall : before.levels.Grows (front ++ .mk element none :: (rest ++ more)) second.levels := by
    simpa using hgrows.trans hlater
  refine ends_updateSpace fun levels hupdate => ?_
  have hrestricted := restrict_grows hlast hall hsecond.placed hupdate
  have hnodes : due code levels.nodes = due code before.levels.nodes + due code condition.nodes := by
    rw [hrestricted.due_nodes]
    simp [joinNodes, Resolved.Join.nodes, Resolved.restrictionNodes, hfront.joinNodes,
      hrest.joinNodes, hmore.joinNodes]
  have hfirst := hwrites.held code
  have hheld : second.held code = first.held code :=
    congrArg (due code) (Levels.Spreads.nodes hspreads)
  change second.advised code + before.held code
    = first.advised code + omitted code written.parts + due code levels.nodes
  simp only [Context.held] at hbooks hheld hfirst ⊢
  omega

theorem qualified_balances {id : SpaceId} (hlast : before.levels.Last id)
    (hsound : before.Sound schema False) (type : JoinType) (fetch : Bool)
    (target : Phrase.JoinTarget) (alias? : Option String) (condition : Option Phrase.Predicate)
    (hcondition : ∀ written, condition = some written → ∀ {between : Context},
      between.Sound schema False →
      Balances code 0 written.parts (fun value => due code value.nodes) schema between
        (predicate written)) :
    Balances code 0 (Phrase.restrictionParts condition) (fun _ => 0) schema before
      (join id (.qualified type fetch target alias? condition)) := by
  have hends : Ends schema before (join id (.qualified type fetch target alias? condition))
      fun _ after => after.advised code + before.held code
        = before.advised code + omitted code (Phrase.restrictionParts condition)
          + after.held code := by
    rw [join]
    refine ends_bind (ends_checkVariable (Q := fun _ after => before = after) rfl) ?_
    rintro _ _ rfl
    refine ends_bind (ends_comply (Q := fun _ after => before = after) rfl) ?_
    rintro _ _ rfl
    refine ends_bind (ends_both (joinTarget_quiet id target alias? type fetch).ends (ends_both
      (joinTarget_writes hlast target alias? type fetch)
      (joinTarget_finds hsound hlast.level target (fun h => h.elim) type fetch))) ?_
    rintro element first ⟨hnotes, hwrites, hfirst, -⟩
    have hadvised := hnotes.advised code
    cases condition with
    | none =>
      have hheld := hwrites.held code
      refine ends_pure ?_
      simp only [Phrase.restrictionParts, omitted_nil]
      omega
    | some written =>
      refine ends_mono (restricts_balances hlast hwrites hfirst.sound (hcondition written rfl)) ?_
      intro _ after hbooks
      rw [← hadvised]
      exact hbooks
  refine ends_mono (ends_both (join_ends (.qualified type fetch target alias? condition)
    (fun h => h.elim) hsound hlast.level) hends) ?_
  rintro _ after ⟨hadvances, hbooks⟩
  exact ⟨hadvances.sound, by omega⟩

/-- A space that is opened and gets its root, and what comes after. -/
theorem openRoot_bind (code : Report.Code) {written : Phrase.Root} {next : SpaceId → FromElement → Step β}
    {Q : β → Context → Prop} (hsound : before.Sound schema False)
    (hnext : ∀ id element rooted, rooted.Sound schema False → rooted.levels.Last id →
      rooted.advised code = before.advised code → rooted.held code = before.held code →
      Ends schema rooted (next id element) Q) :
    Ends schema before (do
      let id ← openSpace
      let element ← root id written
      next id element) Q := by
  refine ends_bind (ends_both openSpace_quiet.ends (ends_openSpace (Q := fun id opened =>
    opened.Sound schema False ∧ ∃ spaces below, before.levels = spaces :: below
      ∧ opened.levels = (spaces ++ [.vacant]) :: below ∧ id = ⟨below.length, spaces.length⟩)
    fun id levels hopen => ?_)) ?_
  · obtain ⟨hextends, hplaces⟩ := hsound.opensSpace hopen
    exact ⟨hextends.sound, hplaces⟩
  rintro id opened ⟨hnotes, hopened, spaces, below, hlevels, hvacant, rfl⟩
  refine ends_bind (ends_both (root_quiet _ written).ends
    (root_ends hopened (by rw [hvacant]; rfl) fun h => h.elim)) ?_
  rintro element rooted ⟨hnotes', hextends, -, -, -, -, place, hplace, hid, hfilled⟩
  have hfill : (⟨[], spaces, [], below⟩ : Place).fill .vacant = place.fill .vacant := by
    rw [← hplace, hvacant]
    rfl
  obtain ⟨rfl, -⟩ := Place.fill_inj hfill hid.symm
  have hnodes : rooted.levels.nodes = before.levels.nodes := by
    rw [hfilled, hlevels]
    simp [Place.fill, Place.clause, Levels.nodes, clauseNodes, OpenSpace.nodes, joinNodes]
  exact hnext _ element rooted hextends.sound ⟨spaces, element, [], below, hfilled, rfl⟩
    ((hnotes.trans hnotes').advised code) (congrArg (due code) hnodes)

theorem space_balances {root : Phrase.Root} {hanging : List Phrase.Join}
    (hsound : before.Sound schema False)
    (hjoins : ∀ id {between : Context}, between.Sound schema False → between.levels.Last id →
      Balances code 0 (Phrase.joinsParts hanging) (fun _ => 0) schema between (joins id hanging)) :
    Balances code 0 (Phrase.joinsParts hanging) (fun _ => 0) schema before
      (space (.mk root hanging)) := by
  refine openRoot_bind code hsound fun id element rooted hrooted hlast hadvised hheld => ?_
  refine ends_mono (hjoins id hrooted hlast) ?_
  rintro _ after ⟨hafter, hbooks⟩
  exact ⟨hafter, by omega⟩

/-! ## Selections and orders -/

theorem bindSelection_balances (hsound : before.Sound schema False) (position : Nat)
    (selection : Resolved.Selection) :
    Balances code given [] (fun _ => given) schema before (bindSelection position selection) :=
  balances_quiet (bindSelection_quiet position selection) <| ends_bindSelection fun _ hbind =>
    ⟨(hsound.selects hbind).sound, rfl, rfl⟩

/-- The advisory about a query without a select clause is given when the root of its first space is
selected. -/
theorem implicitSelection_balances (hsound : before.Sound schema False) {part : Phrase.Part}
    (hpart : part.advisory? = some .implicitSelect) :
    Balances code 0 [part] (fun selections => due code (Resolved.selectionNodes selections)) schema
      before implicitSelection := by
  have hbooks : Ends schema before implicitSelection fun selections after =>
      after.advised code = before.advised code + noted code (some .implicitSelect)
        ∧ after.held code = before.held code
        ∧ due code (Resolved.selectionNodes selections) = 0 := by
    refine ends_get_bind ?_
    split
    · exact ends_throw _
    · refine ends_modify_bind ?_
      refine ends_bind (ends_comply (Q := fun _ after => after = _) rfl) ?_
      rintro _ _ rfl
      refine ends_bind (ends_bindSelection (Q := fun _ after =>
        after.advised code = before.advised code + noted code (some .implicitSelect)
          ∧ after.held code = before.held code) fun trail _ => ⟨?_, rfl⟩) fun _ _ h =>
        ends_pure ⟨h.1, h.2, rfl⟩
      simp [Context.advised, Context.advise, noted]
  refine ends_mono (ends_both (implicitSelection_ends hsound) hbooks) ?_
  rintro selections after ⟨⟨hextends, -⟩, hadvised, hheld, hweight⟩
  refine ⟨hextends.sound, ?_⟩
  dsimp only
  rw [omitted_cons, hpart, omitted_nil, hweight]
  omega

/-- A result variable is named by a path, and stands for no expression. -/
theorem sortItem_balances {written : Phrase.Expression} {collation ordering : Option String}
    (hsound : before.Sound schema False)
    (hwritten : BalancesExpression code schema before written) :
    Balances code 0 written.parts (fun item => due code item.nodes) schema before
      (sortItem (.mk written collation ordering)) := by
  rw [sortItem]
  have hfinish : ∀ (value : Expression) {between : Context}, between.Sound schema False →
      Balances code (due code value.nodes) [] (fun item => due code item.nodes) schema between (do
        let order ← ofExcept (sortOrder ordering)
        return Resolved.SortItem.mk value collation order) := by
    intro value between hbetween
    refine balances_stays hbetween ?_ ?_
    · exact stays_bind (sortOrder_stays ordering) fun _ => stays_pure _
    · exact ends_bind (ends_ofExcept (Q := fun _ _ => True) fun _ _ => trivial) fun _ _ _ =>
        ends_pure rfl
  refine balances_get_bind ?_
  dsimp only
  split
  · rename_i value hvalue
    obtain ⟨result, -, rfl⟩ := resultVariable?_some hvalue
    cases written with
    | path dotted => exact balances_part rfl (hfinish _ hsound)
    | _ => cases hvalue
  · exact balances_then hwritten fun value _ hbetween => hfinish value hbetween

/-! ## Queries -/

/-- The collection of a predicate is about what the operand is about that it is found in. -/
theorem isEmpty_balances {written : Phrase.Expression} {negated : Bool}
    (h : BalancesExpression code schema before written) :
    Balances code 0 written.parts (fun value => due code value.nodes) schema before
      (predicate (.isEmpty written negated)) :=
  balances_then h fun value _ hvalue =>
    balances_then (pluralOperand_balances hvalue .isEmpty value) fun _ _ hplural =>
      balances_pure hplural rfl

theorem memberOf_balances {element collection : Phrase.Expression} {negated : Bool}
    (helement : BalancesExpression code schema before element)
    (hcollection : ∀ {between : Context}, between.Sound schema False →
      BalancesExpression code schema between collection) :
    Balances code 0 (element.parts ++ collection.parts) (fun value => due code value.nodes) schema
      before (predicate (.memberOf element collection negated)) :=
  balances_seq helement fun value _ hvalue =>
    balances_after (pluralOperand_balances hvalue .memberOf value) fun _ _ hplural =>
      balances_last (hcollection hplural) fun _ => by simp [Resolved.Predicate.nodes]

/-- What the spaces of a level hold is moved into the result when the level is left. -/
theorem onLevel_books {weight : α → Nat} {P : α → Prop} {step : Step α}
    (hstep : Balances code 0 parts weight schema before.openLevel step)
    (hform : Ends schema before.openLevel step fun value _ => P value) :
    Ends schema before (onLevel step) fun value after => P value.1
      ∧ after.advised code + before.held code = before.advised code + omitted code parts
        + (due code (Resolved.spaceNodes value.2) + weight value.1) + after.held code := by
  refine ends_onLevel (ends_mono (ends_both hstep hform) ?_)
  rintro value inner ⟨⟨-, hbooks⟩, hvalue⟩ spaces hclose
  have hinner : inner.held code
      = due code (clauseNodes (inner.levels.headD [])) + inner.leaveLevel.held code := by
    change due code inner.levels.nodes = _ + due code (Levels.nodes inner.levels.tail)
    cases inner.levels with
    | nil => rfl
    | cons opened below => rw [Levels.nodes_cons, due_append]; rfl
  have hadvised : inner.leaveLevel.advised code = inner.advised code := rfl
  have hopened : before.openLevel.advised code = before.advised code
      ∧ before.openLevel.held code = before.held code := ⟨rfl, rfl⟩
  refine ⟨hvalue, ?_⟩
  rw [close_nodes hclose]
  dsimp only
  omega

/-- The spaces of a level are the first clause of the query. -/
theorem closes_books {step : Step (List Resolved.Space → Resolved.Select)}
    (hstep : Balances code 0 parts (fun clauses => due code (clauses []).nodes) schema
      before.openLevel step)
    (hform : Ends schema before.openLevel step fun clauses _ => ∀ spaces,
      due code (clauses spaces).nodes
        = due code (Resolved.spaceNodes spaces) + due code (clauses []).nodes) :
    Ends schema before (do
      let (clauses, spaces) ← onLevel step
      return clauses spaces) fun select after =>
        after.advised code + before.held code
          = before.advised code + omitted code parts + due code select.nodes
            + after.held code := by
  refine ends_bind (onLevel_books hstep hform) ?_
  rintro ⟨clauses, spaces⟩ after ⟨hclauses, hbooks⟩
  refine ends_pure ?_
  rw [hclauses spaces]
  exact hbooks

/-- The finished spaces of a query stand before what was read of its other clauses. -/
theorem clauses_form (written : List Phrase.Space) (select : Option Phrase.SelectClause)
    (condition : Option Phrase.Predicate) (ordering : Option (List Phrase.SortItem))
    (limit offset : Option Phrase.Expression) :
    Ends schema before (do
      spaces written
      let (distinct, selections) ← selectClause select
      let condition ← restriction condition
      let ordering ← order ordering
      let limit ← optional limit
      let offset ← optional offset
      return fun spaces =>
        Resolved.Select.mk spaces distinct selections condition ordering limit offset)
      fun clauses _ => ∀ spaces, due code (clauses spaces).nodes
        = due code (Resolved.spaceNodes spaces) + due code (clauses []).nodes := by
  refine ends_bind (Q := fun _ _ => True) (fun _ _ _ => trivial) fun _ _ _ => ?_
  refine ends_bind (Q := fun _ _ => True) (fun _ _ _ => trivial) fun ⟨distinct, selections⟩ _ _ => ?_
  refine ends_bind (Q := fun _ _ => True) (fun _ _ _ => trivial) fun condition _ _ => ?_
  refine ends_bind (Q := fun _ _ => True) (fun _ _ _ => trivial) fun ordering _ _ => ?_
  refine ends_bind (Q := fun _ _ => True) (fun _ _ _ => trivial) fun limit _ _ => ?_
  refine ends_bind (Q := fun _ _ => True) (fun _ _ _ => trivial) fun offset _ _ => ?_
  refine ends_pure fun spaces => ?_
  simp [Resolved.Select.nodes, Resolved.spaceNodes]

mutual

theorem expression_balances : ∀ (written : Phrase.Expression) {before : Context},
    before.Sound schema False → BalancesExpression code schema before written
  | .literal token, _, hsound => balances_part rfl (literal_balances hsound token)
  | .parameter written, _, hsound => balances_part rfl (parameter_balances hsound written)
  | .path dotted, _, hsound => balances_part rfl (pathOrCall_balances hsound dotted)
  | .indexed base index remainder, _, hsound =>
    balances_part rfl <| balances_then (expression_balances index hsound) fun value _ hvalue =>
      indexed_balances hvalue base value remainder
  | .treated base entity remainder, _, hsound =>
    balances_part rfl (treated_balances hsound base entity remainder)
  | .mapFunction function argument, _, hsound =>
    balances_part rfl (mapEntry_balances hsound function argument)
  | .arithmetic _ [left, right], _, hsound =>
    balances_part rfl <| balances_bind (expression_balances left hsound) fun _ _ hleft =>
      balances_bind (expression_balances right hleft) fun _ _ hright =>
        balances_pure hright (by simp [arithmetic, Expression.nodes, due_cons, Expression.advisory?])
  | .arithmetic _ [], _, _ => balances_throw _
  | .arithmetic _ [_], _, _ => balances_throw _
  | .arithmetic _ (_ :: _ :: _ :: _), _, _ => balances_throw _
  | .concatenation [left, right], _, hsound =>
    balances_part rfl <| balances_bind (expression_balances left hsound) fun _ _ hleft =>
      balances_bind (expression_balances right hleft) fun _ _ hright =>
        balances_pure hright (by simp [Expression.nodes, due_cons, Expression.advisory?])
  | .concatenation [], _, _ => balances_throw _
  | .concatenation [_], _, _ => balances_throw _
  | .concatenation (_ :: _ :: _ :: _), _, _ => balances_throw _
  | .unary _ operand, _, hsound =>
    balances_part rfl <| balances_last (expression_balances operand hsound) fun _ => by
      simp [Expression.nodes, due_cons, Expression.advisory?]
  | .grouped inner, _, hsound => balances_part rfl (expression_balances inner hsound)
  | .call _ _ _ _ [], _, hsound =>
    call_balances hsound (fun _ hone => by cases hone) (expressions_balance [])
  | .call _ _ _ _ [argument], _, hsound =>
    call_balances hsound
      (fun _ hone _ hbetween => by
        cases hone
        exact expression_balances argument hbetween)
      (expressions_balance [argument])
  | .call _ _ _ _ (first :: second :: rest), _, hsound =>
    call_balances hsound (fun _ hone => by cases hone)
      (expressions_balance (first :: second :: rest))
  | .simpleCase operand whens otherwise, _, hsound => by
    simp only [BalancesExpression, Phrase.Expression.parts, List.append_assoc]
    exact balances_part rfl <| balances_bind (expression_balances operand hsound) fun _ _ hoperand =>
      balances_bind (simpleWhens_balance whens hoperand) fun _ _ hwhens =>
        balances_last (optional_balances otherwise hwhens) fun _ => by
          simp [Expression.nodes, due_cons, Expression.advisory?, Nat.add_assoc]
  | .searchedCase whens otherwise, _, hsound =>
    balances_part rfl <| balances_bind (searchedWhens_balance whens hsound) fun _ _ hwhens =>
      balances_last (optional_balances otherwise hwhens) fun _ => by
        simp [Expression.nodes, due_cons, Expression.advisory?]
  | .subquery nested, _, hsound =>
    balances_last (query_balances nested true hsound) fun _ => by
      simp [Expression.nodes, due_cons, Expression.advisory?, Resolved.Subquery.ofSelect,
        Resolved.Subquery.nodes]

theorem expressions_balance : ∀ (written : List Phrase.Expression) {before : Context},
    before.Sound schema False →
      Balances code 0 (Phrase.expressionsParts written)
        (fun values => due code (expressionNodes values)) schema before (expressions written)
  | [], _, hsound => balances_pure hsound rfl
  | first :: rest, _, hsound =>
    balances_bind (expression_balances first hsound) fun _ _ hfirst =>
      balances_last (expressions_balance rest hfirst) fun _ => by simp [expressionNodes]

theorem optional_balances : ∀ (written : Option Phrase.Expression) {before : Context},
    before.Sound schema False →
      Balances code 0 (Phrase.optionalParts written)
        (fun value => due code (Resolved.optionalNodes value)) schema before (optional written)
  | none, _, hsound => balances_pure hsound rfl
  | some written, _, hsound =>
    balances_last (expression_balances written hsound) fun _ => by simp [Resolved.optionalNodes]

theorem simpleWhen_balances : ∀ (written : Phrase.SimpleWhen) {before : Context},
    before.Sound schema False →
      Balances code 0 written.parts (fun branch => due code branch.nodes) schema before
        (simpleWhen written)
  | .mk value result, _, hsound =>
    balances_bind (expression_balances value hsound) fun _ _ hvalue =>
      balances_last (expression_balances result hvalue) fun _ => by simp [Resolved.SimpleWhen.nodes]

theorem simpleWhens_balance : ∀ (written : List Phrase.SimpleWhen) {before : Context},
    before.Sound schema False →
      Balances code 0 (Phrase.simpleWhensParts written)
        (fun branches => due code (Resolved.simpleWhenNodes branches)) schema before
        (simpleWhens written)
  | [], _, hsound => balances_pure hsound rfl
  | first :: rest, _, hsound =>
    balances_bind (simpleWhen_balances first hsound) fun _ _ hfirst =>
      balances_last (simpleWhens_balance rest hfirst) fun _ => by simp [Resolved.simpleWhenNodes]

theorem searchedWhen_balances : ∀ (written : Phrase.SearchedWhen) {before : Context},
    before.Sound schema False →
      Balances code 0 written.parts (fun branch => due code branch.nodes) schema before
        (searchedWhen written)
  | .mk condition result, _, hsound =>
    balances_bind (predicate_balances condition hsound) fun _ _ hcondition =>
      balances_last (expression_balances result hcondition) fun _ => by
        simp [Resolved.SearchedWhen.nodes]

theorem searchedWhens_balance : ∀ (written : List Phrase.SearchedWhen) {before : Context},
    before.Sound schema False →
      Balances code 0 (Phrase.searchedWhensParts written)
        (fun branches => due code (Resolved.searchedWhenNodes branches)) schema before
        (searchedWhens written)
  | [], _, hsound => balances_pure hsound rfl
  | first :: rest, _, hsound =>
    balances_bind (searchedWhen_balances first hsound) fun _ _ hfirst =>
      balances_last (searchedWhens_balance rest hfirst) fun _ => by
        simp [Resolved.searchedWhenNodes]

theorem predicate_balances : ∀ (written : Phrase.Predicate) {before : Context},
    before.Sound schema False →
      Balances code 0 written.parts (fun value => due code value.nodes) schema before
        (predicate written)
  | .and left right, _, hsound =>
    balances_part rfl <| balances_bind (predicate_balances left hsound) fun _ _ hleft =>
      balances_last (predicate_balances right hleft) fun _ => by simp [Resolved.Predicate.nodes]
  | .or left right, _, hsound =>
    balances_part rfl <| balances_bind (predicate_balances left hsound) fun _ _ hleft =>
      balances_last (predicate_balances right hleft) fun _ => by simp [Resolved.Predicate.nodes]
  | .not inner, _, hsound =>
    balances_part rfl <| balances_last (predicate_balances inner hsound) fun _ => by
      simp [Resolved.Predicate.nodes]
  | .grouped inner, _, hsound =>
    balances_part rfl <| balances_last (predicate_balances inner hsound) fun _ => by
      simp [Resolved.Predicate.nodes]
  | .comparison _ left right, _, hsound =>
    balances_part rfl <| balances_bind (expression_balances left hsound) fun _ _ hleft =>
      balances_last (expression_balances right hleft) fun _ => by simp [Resolved.Predicate.nodes]
  | .between written lower upper _, _, hsound => by
    simp only [Phrase.Predicate.parts, List.append_assoc]
    exact balances_part rfl <| balances_bind (expression_balances written hsound) fun _ _ hwritten =>
      balances_bind (expression_balances lower hwritten) fun _ _ hlower =>
        balances_last (expression_balances upper hlower) fun _ => by
          simp [Resolved.Predicate.nodes, Nat.add_assoc]
  | .like written pattern escape _, _, hsound => by
    simp only [Phrase.Predicate.parts, List.append_assoc]
    exact balances_part rfl <| balances_bind (expression_balances written hsound) fun _ _ hwritten =>
      balances_bind (expression_balances pattern hwritten) fun _ _ hpattern =>
        balances_last (optional_balances escape hpattern) fun _ => by
          simp [Resolved.Predicate.nodes, Nat.add_assoc]
  | .inList written items _, _, hsound =>
    balances_part rfl <| balances_bind (expression_balances written hsound) fun _ _ hwritten =>
      balances_last (expressions_balance items hwritten) fun _ => by
        simp [Resolved.Predicate.nodes]
  | .inSubquery written operand _, _, hsound => by
    cases operand with
    | subquery nested =>
      exact balances_part rfl <| balances_bind (expression_balances written hsound)
        fun _ _ hwritten => balances_last (query_balances nested true hwritten) fun _ => by
          simp [Resolved.Predicate.nodes, Resolved.Subquery.ofSelect, Resolved.Subquery.nodes]
    | _ =>
      exact balances_part rfl <| balances_bind (expression_balances written hsound)
        fun _ _ _ => balances_throw _
  | .isNull written _, _, hsound =>
    balances_part rfl <| balances_last (expression_balances written hsound) fun _ => by
      simp [Resolved.Predicate.nodes]
  | .isEmpty written _, _, hsound =>
    balances_part rfl (isEmpty_balances (expression_balances written hsound))
  | .memberOf element collection _, _, hsound =>
    balances_part rfl (memberOf_balances (expression_balances element hsound)
      (expression_balances collection))
  | .existence operand _, _, hsound => by
    cases operand with
    | subquery nested =>
      exact balances_part rfl <| balances_last (query_balances nested true hsound) fun _ => by
        simp [Resolved.Predicate.nodes, Resolved.Subquery.ofSelect, Resolved.Subquery.nodes]
    | _ => exact balances_throw _

theorem restriction_balances : ∀ (written : Option Phrase.Predicate) {before : Context},
    before.Sound schema False →
      Balances code 0 (Phrase.restrictionParts written)
        (fun value => due code (Resolved.restrictionNodes value)) schema before
        (restriction written)
  | none, _, hsound => balances_pure hsound rfl
  | some written, _, hsound =>
    balances_last (predicate_balances written hsound) fun _ => by simp [Resolved.restrictionNodes]

theorem selectExpression_balances : ∀ (written : Phrase.SelectExpression) {before : Context},
    before.Sound schema False →
      Balances code 0 written.parts (fun value => due code value.nodes) schema before
        (selectExpression written)
  | .instantiation target items, _, hsound => by
    have htarget : ∀ {between : Context}, between.Sound schema False →
        Balances code 0 [] (fun _ => 0) schema between (instantiationTarget target items) :=
      fun hbetween => balances_stays hbetween (instantiationTarget_stays target items)
        (instantiationTarget_ends fun _ => rfl)
    exact balances_bind (htarget hsound) fun _ _ hmade =>
      balances_last (arguments_balance items hmade) fun _ => by
        simp [Expression.nodes, due_cons, Expression.advisory?]
  | .object name, _, hsound => by
    have hvariable : Balances code 0 [] (fun _ => 0) schema _ (identificationVariable name) :=
      balances_stays hsound (identificationVariable_stays name) fun _ _ _ => rfl
    exact balances_last hvariable fun _ => rfl
  | .expression written, _, hsound => expression_balances written hsound

theorem arguments_balance : ∀ (written : List Phrase.SelectItem) {before : Context},
    before.Sound schema False →
      Balances code 0 (Phrase.itemsParts written)
        (fun values => due code (Resolved.argumentNodes values)) schema before (arguments written)
  | [], _, hsound => balances_pure hsound rfl
  | .mk written _ :: rest, _, hsound =>
    balances_bind (selectExpression_balances written hsound) fun _ _ hfirst =>
      balances_last (arguments_balance rest hfirst) fun _ => by
        simp [Resolved.argumentNodes, Resolved.Argument.nodes]

theorem selections_balance : ∀ (written : List Phrase.SelectItem) (position : Nat)
    {before : Context}, before.Sound schema False →
      Balances code 0 (Phrase.itemsParts written)
        (fun values => due code (Resolved.selectionNodes values)) schema before
        (selections written position)
  | [], _, _, hsound => balances_pure hsound rfl
  | .mk written alias? :: rest, position, _, hsound => by
    have hvariable : Balances code 0 [] (fun _ => 0) schema _ (checkVariable alias?) :=
      balances_stays hsound (checkVariable_stays alias?) fun _ _ _ => rfl
    exact balances_after hvariable fun _ _ hchecked =>
      balances_seq (selectExpression_balances written hchecked) fun _ _ hvalue =>
        balances_after (bindSelection_balances hvalue position _) fun _ _ hbound =>
          balances_last (selections_balance rest (position + 1) hbound) fun _ => by
            simp [Resolved.selectionNodes, Resolved.Selection.nodes]

/-- The part stands for the query whose clause is read. -/
theorem selectClause_balances : ∀ (written : Option Phrase.SelectClause) {before : Context}
    {part : Phrase.Part}, before.Sound schema False →
      part.advisory? = (if written.isNone then some .implicitSelect else none) →
      Balances code 0 (part :: Phrase.clauseParts written)
        (fun value => due code (Resolved.selectionNodes value.2)) schema before
        (selectClause written)
  | none, _, _, hsound, hpart =>
    balances_last (implicitSelection_balances hsound hpart) fun _ => (Nat.zero_add _).symm
  | some (.mk _ items), _, _, hsound, hpart =>
    balances_part hpart <| balances_last (selections_balance items 0 hsound) fun _ =>
      (Nat.zero_add _).symm

theorem join_balances : ∀ (written : Phrase.Join) {before : Context} {id : SpaceId},
    before.Sound schema False → before.levels.Last id →
      Balances code 0 written.parts (fun _ => 0) schema before (join id written)
  | .cross written, _, _, hsound, hlast => cross_balances hlast hsound written
  | .collection path alias?, _, _, hsound, hlast => member_balances hlast hsound path alias?
  | .qualified type fetch target alias? none, _, _, hsound, hlast =>
    qualified_balances hlast hsound type fetch target alias? none fun _ h => by cases h
  | .qualified type fetch target alias? (some condition), _, _, hsound, hlast =>
    qualified_balances hlast hsound type fetch target alias? (some condition)
      fun _ h _ hbetween => by
        cases h
        exact predicate_balances condition hbetween

theorem joins_balance : ∀ (written : List Phrase.Join) {before : Context} {id : SpaceId},
    before.Sound schema False → before.levels.Last id →
      Balances code 0 (Phrase.joinsParts written) (fun _ => 0) schema before (joins id written)
  | [], _, _, hsound, _ => balances_pure hsound rfl
  | first :: rest, _, _, hsound, hlast => by
    refine ends_bind (ends_both (join_balances first hsound hlast)
      (join_ends first (fun h => h.elim) hsound hlast.level)) ?_
    rintro _ between ⟨⟨hbetween, hbooks⟩, hadvances⟩
    refine ends_mono (joins_balance rest hbetween (hlast.of_roots hadvances.roots)) ?_
    rintro _ after ⟨hafter, hlater⟩
    refine ⟨hafter, ?_⟩
    dsimp only at hbooks hlater ⊢
    rw [Phrase.joinsParts, omitted_append]
    omega

theorem spaces_balance : ∀ (written : List Phrase.Space) {before : Context},
    before.Sound schema False →
      Balances code 0 (Phrase.spacesParts written) (fun _ => 0) schema before (spaces written)
  | [], _, hsound => balances_pure hsound rfl
  | .mk _ hanging :: rest, _, hsound =>
    balances_seq (space_balances hsound fun _ _ hbetween hlast =>
      joins_balance hanging hbetween hlast) fun _ _ hfirst => spaces_balance rest hfirst

theorem sortItems_balance : ∀ (written : List Phrase.SortItem) {before : Context},
    before.Sound schema False →
      Balances code 0 (Phrase.sortItemsParts written)
        (fun items => due code (Resolved.sortNodes items)) schema before (sortItems written)
  | [], _, hsound => balances_pure hsound rfl
  | .mk written _ _ :: rest, _, hsound =>
    balances_bind (sortItem_balances hsound (expression_balances written hsound))
      fun _ _ hfirst => balances_last (sortItems_balance rest hfirst) fun _ => by
        simp [Resolved.sortNodes]

theorem order_balances : ∀ (written : Option (List Phrase.SortItem)) {before : Context},
    before.Sound schema False →
      Balances code 0 (Phrase.orderParts written)
        (fun items => due code (Resolved.orderNodes items)) schema before (order written)
  | none, _, hsound => balances_pure hsound rfl
  | some written, _, hsound =>
    balances_last (sortItems_balance written hsound) fun _ => by simp [Resolved.orderNodes]

theorem query_balances : ∀ (written : Phrase.Query) (nested : Bool) {before : Context},
    before.Sound schema False →
      Balances code 0 (Phrase.Expression.subquery written).parts
        (fun select => due code select.nodes) schema before (query written nested)
  | .mk select written condition ordering limit offset, nested, before, hsound => by
    have hpart : (Phrase.Part.expression (.subquery
        (.mk select written condition ordering limit offset))).advisory?
          = if select.isNone then some .implicitSelect else none := rfl
    have hbooks : Ends schema before
        (query (.mk select written condition ordering limit offset) nested) fun value after =>
          after.advised code + before.held code = before.advised code
            + omitted code (Phrase.spacesParts written ++ ((.expression (.subquery
              (.mk select written condition ordering limit offset)) :: Phrase.clauseParts select)
              ++ (Phrase.restrictionParts condition ++ (Phrase.orderParts ordering
                ++ (Phrase.optionalParts limit ++ Phrase.optionalParts offset)))))
            + due code value.nodes + after.held code := by
      refine ends_bind (ends_comply (Q := fun _ after => before = after) rfl) ?_
      rintro _ _ rfl
      refine ends_bind (ends_comply (Q := fun _ after => before = after) rfl) ?_
      rintro _ _ rfl
      refine closes_books ?_ (clauses_form _ _ _ _ _ _)
      exact balances_seq (spaces_balance written hsound.openLevel) fun _ _ hspaces =>
        balances_seq (selectClause_balances select hspaces hpart) fun ⟨_, _⟩ _ hselect =>
          balances_bind (restriction_balances condition hselect) fun _ _ hcondition =>
            balances_bind (order_balances ordering hcondition) fun _ _ hordering =>
              balances_bind (optional_balances limit hordering) fun _ _ hlimit =>
                balances_last (optional_balances offset hlimit) fun _ => by
                  simp [Resolved.Select.nodes, Resolved.spaceNodes, Nat.add_assoc]
    refine ends_mono (ends_both (query_builds (.mk select written condition ordering limit offset)
      nested (fun h => h.elim) hsound) hbooks) ?_
    rintro value after ⟨⟨hadvances, -⟩, hbooks⟩
    refine ⟨hadvances.sound, ?_⟩
    simp only [Phrase.Expression.parts, Phrase.Query.parts, omitted_append, omitted_cons] at hbooks ⊢
    omega

end

end Step
end EntityQuery.Interpretation

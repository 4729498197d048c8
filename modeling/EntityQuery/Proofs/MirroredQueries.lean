import EntityQuery.Interpretation.Query
import EntityQuery.Proofs.BuiltPaths
import EntityQuery.Proofs.BuiltQueries
import EntityQuery.Proofs.MirroredCalls
import EntityQuery.Proofs.RebuiltTwice

/-!
# Queries built in both states

A query that is built in a state and in the state with other types for some roots is the same tree
over other elements, with the types that follow from them: building it in the second state is
building it in the first one and then anew. The proof follows the recursion of the steps on the
phrase, one case for each form. A result variable is mentioned in an order only: no other step
builds such a mention, whatever the state in which it starts.

* `Step.expression_plain`: an expression is built as no result variable.
* `Step.Rebuilds`: a step that builds the same tree in both states.
* `Step.clauses_mirror`: the clauses of a query behind its from clause.
* `Step.expression_mirrors`, `Step.predicate_mirrors`, `Step.query_mirrors`.
-/

/-! ## Values that are no result variables -/

namespace EntityQuery.Interpretation.Step

open Resolved (Expression IndexedReference)

variable {schema : Schema} {before : Context}

/-- The expression is not the mention of a result variable. -/
abbrev Plain (value : Expression) (_ : Context) : Prop := value.isVariable = false

/-- What was done before the last step does not matter. -/
theorem ends_last {α β : Type} {first : Step α} {second : α → Step β} {R : β → Context → Prop}
    (h : ∀ value between, Ends schema between (second value) R) :
    Ends schema before (first >>= second) R :=
  ends_bind (Q := fun _ _ => True) (fun _ _ _ => trivial) fun value between _ => h value between

theorem navigate_plain (element : FromElement) (names : List String) (path : DottedName) :
    Ends schema before (navigate element names path) Plain := by
  refine ends_last fun _ between => ?_
  split
  · exact ends_pure rfl
  · refine ends_get_bind ?_
    dsimp only
    split
    · exact ends_last fun _ _ => ends_last fun _ _ => ends_pure rfl
    · exact ends_last fun _ _ => ends_last fun _ _ => ends_pure rfl

theorem path_plain (dotted : DottedName) : Ends schema before (path dotted) Plain := by
  unfold path
  split
  · exact ends_throw _
  refine ends_get_bind (ends_read_bind ?_)
  split
  · exact navigate_plain _ _ _
  split
  · exact ends_pure rfl
  split
  · rename_i constant hconstant
    obtain ⟨owner, member, type, rfl⟩ := constant?_form hconstant
    exact ends_pure rfl
  refine ends_last fun _ _ => ?_
  split
  · exact navigate_plain _ _ _
  · exact ends_throw _

theorem navigateIndexed_plain (indexed : IndexedReference) (path : DottedName) :
    Ends schema before (navigateIndexed indexed path) Plain := by
  unfold navigateIndexed
  split
  · exact ends_pure rfl
  · exact ends_last fun _ _ => ends_last fun _ _ => ends_pure rfl

theorem indexed_plain (base : DottedName) (index : Expression) (remainder : Option DottedName) :
    Ends schema before (indexed base index remainder) Plain := by
  refine ends_last fun _ _ => ?_
  split
  · split
    · dsimp only
      split
      · exact ends_pure rfl
      · exact ends_under (navigateIndexed_plain _ _)
    · exact ends_throw _
  · exact ends_throw _

theorem treated_plain (base target : DottedName) (remainder : Option DottedName) :
    Ends schema before (treated base target remainder) Plain := by
  refine ends_last fun _ _ => ends_last fun _ _ => ?_
  split
  · exact ends_pure rfl
  · exact navigate_plain _ _ _

theorem mapEntry_plain (function : MapFunction) (argument : DottedName) :
    Ends schema before (mapEntry function argument) Plain := by
  refine ends_last fun _ _ => ?_
  split
  · exact ends_pure rfl
  · exact ends_last fun _ _ => ends_pure rfl
  · exact ends_pure rfl
  · exact ends_pure rfl
  · exact ends_throw _

theorem pathOrCall_plain (dotted : DottedName) : Ends schema before (pathOrCall dotted) Plain := by
  refine ends_get_bind ?_
  split
  · exact ends_pure rfl
  · exact path_plain dotted

theorem indexOfJoin_plain (argument : Phrase.Expression) :
    Ends schema before (indexOfJoin argument) Plain := by
  unfold indexOfJoin
  split
  · refine ends_last fun _ _ => ?_
    split
    · exact ends_pure rfl
    · exact ends_throw _
  · exact ends_throw _

theorem collectionFunction_plain (function : CollectionFunction) (argument : Expression) :
    Ends schema before (collectionFunction function argument) Plain := by
  unfold collectionFunction
  split
  · split
    · exact ends_last fun _ _ => ends_pure rfl
    · exact ends_throw _
  · exact ends_throw _

theorem call_plain (name : String) (generic distinct star : Bool)
    (arguments : List Phrase.Expression) :
    Ends schema before (expression (.call name generic distinct star arguments)) Plain := by
  simp only [expression]
  split
  · refine ends_last fun _ _ => ?_
    split
    · split
      · exact indexOfJoin_plain _
      · exact ends_last fun _ _ => collectionFunction_plain _ _
    · exact ends_throw _
  · exact ends_last fun _ _ => ends_last fun _ _ => ends_pure rfl

/-- Result variables are mentioned in orders only. -/
theorem expression_plain : ∀ (written : Phrase.Expression) {before : Context},
    Ends schema before (expression written) Plain
  | .literal _, _ => by
    unfold expression literal
    split
    · exact ends_pure rfl
    · exact ends_throw _
  | .parameter _, _ => ends_last fun _ _ => ends_pure rfl
  | .path dotted, _ => pathOrCall_plain dotted
  | .indexed base _ remainder, _ => ends_last fun index _ => indexed_plain base index remainder
  | .treated base entity remainder, _ => treated_plain base entity remainder
  | .mapFunction function argument, _ => mapEntry_plain function argument
  | .arithmetic _ [_, _], _ => ends_last fun _ _ => ends_last fun _ _ => ends_pure rfl
  | .arithmetic _ [], _ => ends_throw _
  | .arithmetic _ [_], _ => ends_throw _
  | .arithmetic _ (_ :: _ :: _ :: _), _ => ends_throw _
  | .concatenation [_, _], _ => ends_last fun _ _ => ends_last fun _ _ => ends_pure rfl
  | .concatenation [], _ => ends_throw _
  | .concatenation [_], _ => ends_throw _
  | .concatenation (_ :: _ :: _ :: _), _ => ends_throw _
  | .unary _ _, _ => ends_last fun _ _ => ends_pure rfl
  | .grouped inner, _ => expression_plain inner
  | .call name generic distinct star arguments, _ => call_plain name generic distinct star arguments
  | .simpleCase _ _ _, _ =>
    ends_last fun _ _ => ends_last fun _ _ => ends_last fun _ _ => ends_pure rfl
  | .searchedCase _ _, _ => ends_last fun _ _ => ends_last fun _ _ => ends_pure rfl
  | .subquery _, _ => ends_last fun _ _ => ends_pure rfl

end EntityQuery.Interpretation.Step

namespace EntityQuery.Interpretation.Step

open Resolved

variable {schema : Schema} {choice : Choice} {before : Context}

/-- A step that builds the same tree in both states, over the elements of each. -/
abbrev Rebuilds {α : Type} (rebuilt : Bool → (FromElement → FromElement) → α → α)
    (schema : Schema) (choice : Choice) (before : Context) (step : Step α) : Prop :=
  Mirrors (Becomes (rebuilt true (FromElement.rebound choice))) schema choice before step step

/-! ## Forms with checks of their own -/

theorem call_rebuilt (name : String) (distinct star standard : Bool) (arguments : List Expression)
    {visit : FromElement → FromElement} :
    (call name distinct star standard arguments).rebuilt true visit
      = call name distinct star standard (arguments.map (Expression.rebuilt true visit)) := by
  rw [call, call, Expression.rebuilt_call]
  cases standard <;> rfl

theorem call_mirrors {name : String} {generic distinct star : Bool}
    {arguments : List Phrase.Expression} (hfits : before.Fits choice)
    (hone : ∀ argument, arguments = [argument] → ∀ {between : Context}, between.Fits choice →
      Rebuilds Expression.rebuilt schema choice between (expression argument))
    (hall : ∀ {between : Context}, between.Fits choice →
      Rebuilds (fun retypes visit => List.map (Expression.rebuilt retypes visit)) schema choice
        between (expressions arguments)) :
    Rebuilds Expression.rebuilt schema choice before
      (expression (.call name generic distinct star arguments)) := by
  simp only [Rebuilds, expression]
  split
  · rename_i function hfunction
    refine mirrors_bind (announceCollectionFunction_mirrors hfits function) ?_
    rintro _ _ between _ hfits
    split
    · rename_i argument
      split
      · exact indexOfJoin_mirrors hfits argument
      · refine mirrors_bind (hone argument rfl hfits) ?_
        rintro value _ after rfl hfits
        exact collectionFunction_mirrors hfits function value
    · exact together_throw _ _
  · refine mirrors_bind (announceCall_mirrors hfits name generic _) ?_
    rintro _ _ between _ hfits
    refine mirrors_bind (hall hfits) ?_
    rintro values _ after rfl hfits
    exact mirrors_pure hfits (call_rebuilt name distinct star _ values).symm

theorem isEmpty_mirrors {written : Phrase.Expression} {negated : Bool}
    (h : Rebuilds Expression.rebuilt schema choice before (expression written)) :
    Rebuilds Predicate.rebuilt schema choice before (predicate (.isEmpty written negated)) := by
  refine mirrors_bind h ?_
  rintro value _ between rfl hfits
  refine mirrors_bind (pluralOperand_mirrors hfits .isEmpty value) ?_
  rintro collection _ after rfl hfits
  exact mirrors_pure hfits rfl

theorem memberOf_mirrors {element collection : Phrase.Expression} {negated : Bool}
    (helement : Rebuilds Expression.rebuilt schema choice before (expression element))
    (hcollection : ∀ {between : Context}, between.Fits choice →
      Rebuilds Expression.rebuilt schema choice between (expression collection)) :
    Rebuilds Predicate.rebuilt schema choice before
      (predicate (.memberOf element collection negated)) := by
  refine mirrors_bind helement ?_
  rintro value _ between rfl hfits
  refine mirrors_bind (pluralOperand_mirrors hfits .memberOf value) ?_
  rintro plural _ between rfl hfits
  refine mirrors_bind (hcollection hfits) ?_
  rintro other _ after rfl hfits
  exact mirrors_pure hfits rfl

theorem instantiation_mirrors {target : Phrase.Target} {items : List Phrase.SelectItem}
    (hfits : before.Fits choice)
    (hitems : ∀ {between : Context}, between.Fits choice →
      Rebuilds (fun retypes visit => List.map (Argument.rebuilt retypes visit)) schema choice
        between (arguments items)) :
    Rebuilds Expression.rebuilt schema choice before
      (selectExpression (.instantiation target items)) := by
  refine mirrors_bind (instantiationTarget_mirrors hfits target items) ?_
  rintro made _ between rfl hfits
  exact one_mirrors (hitems hfits) fun values => (Expression.rebuilt_instantiation made values).symm

/-! ## Selections -/

/-- How the selections of a query are built, from a position on. -/
abbrev Selects (schema : Schema) (choice : Choice) (before : Context) {α : Type}
    (selections : α → List Selection) (rebuild : α → α) (start : Nat) (step : Step α) : Prop :=
  Together schema before (before.rebound choice) step step fun value value' after after' =>
    value' = rebuild value ∧ after' = after.rebound choice ∧ before.Continues choice after
      ∧ SelectsFrom before after (selections value) start

theorem bindSelection_together (hfits : before.Fits choice) (position : Nat)
    (selection : Selection) :
    Together schema before (before.rebound choice) (bindSelection position selection)
      (bindSelection position (selection.rebuilt true (FromElement.rebound choice)))
      fun _ _ after after' => after' = after.rebound choice ∧ before.Continues choice after
        ∧ before.trail.bindSelection position selection = .ok after.trail := by
  refine together_bindSelection fun trail trail' hbind hbind' => ?_
  have halias : (selection.rebuilt true (FromElement.rebound choice)).alias?
      = selection.alias? := by
    cases selection
    rfl
  have hexpression : (selection.rebuilt true (FromElement.rebound choice)).expression
      = selection.expression.rebuilt true (FromElement.rebound choice) := by
    cases selection
    rfl
  refine ⟨?_, ?_, hbind⟩
  · rcases Trail.bindSelection_ok hbind with ⟨hnone, rfl⟩ | ⟨aliasName, hsome, rfl⟩
    · rcases Trail.bindSelection_ok hbind' with ⟨-, rfl⟩ | ⟨aliasName, hsome, -⟩
      · rfl
      · rw [halias, hnone] at hsome
        cases hsome
    · rcases Trail.bindSelection_ok hbind' with ⟨hnone, -⟩ | ⟨aliasName', hsome', rfl⟩
      · rw [halias, hsome] at hnone
        cases hnone
      · rw [halias, hsome] at hsome'
        cases hsome'
        rw [hexpression]
        rfl
  · rcases Trail.bindSelection_ok hbind with ⟨-, rfl⟩ | ⟨aliasName, -, rfl⟩
    · exact ⟨hfits, [], rfl, fun _ hnone => (List.not_mem_nil hnone).elim⟩
    · refine ⟨hfits.select _, [.selection _], rfl, fun mark hmark => ?_⟩
      rw [List.mem_singleton.mp hmark]
      rfl

theorem implicitSelection_mirrors (hfits : before.Fits choice) :
    Selects schema choice before id (List.map (Selection.rebuilt true (FromElement.rebound choice)))
      0 implicitSelection := by
  refine together_get_bind ?_
  have hroot : (before.rebound choice).levels.firstRoot?
      = before.levels.firstRoot?.map (FromElement.rebound choice) :=
    Levels.firstRoot?_rebound before.levels
  rw [hroot]
  cases before.levels.firstRoot? with
  | none => exact together_throw _ _
  | some root =>
    dsimp only [Option.map_some]
    rw [FromElement.aliasName_rebound]
    refine together_bind (advise_mirrors hfits _ _) ?_
    rintro _ _ first _ ⟨-, rfl, hfirst⟩
    refine together_bind (mirrors_comply hfirst.fits) ?_
    rintro _ _ second _ ⟨-, rfl, hsecond⟩
    refine together_bind (bindSelection_together hsecond.fits 0 (.mk (.element root) none)) ?_
    rintro _ _ third _ ⟨rfl, hthird, hbind⟩
    refine together_pure ⟨rfl, rfl, (hfirst.trans hsecond).continues.trans hthird, ?_⟩
    refine SelectsFrom.cons (hfirst.trans hsecond).results hbind fun result hresult => .inl hresult

/-! ## Orders -/

/-- The current result variables stand for selections. -/
def VariablesStand (selections : List Selection) (context : Context) : Prop :=
  ∀ result ∈ context.trail.results,
    selections[result.position]? = some (.mk result.expression (some result.aliasName))

theorem VariablesStand.follow {selections : List Selection} {after : Context}
    (h : VariablesStand selections before) (hfollows : before.Follows choice after) :
    VariablesStand selections after := by
  unfold VariablesStand
  rw [hfollows.results]
  exact h

/-- The item built anew, with the types that result variables have in the selections built anew. -/
def sortItemRebuilt (selections : List Selection) (retypes : Bool)
    (visit : FromElement → FromElement) (item : SortItem) : SortItem :=
  (item.rebuilt retypes visit).retyped (selections.map (Selection.rebuilt retypes visit))

theorem resultVariable?_rebound (trail : Trail) (written : Phrase.Expression)
    (h : resultVariable? trail written = none) :
    resultVariable? (trail.rebound choice) written = none := by
  cases written with
  | path path =>
    simp only [resultVariable?] at h ⊢
    split
    · rename_i hsimple
      rw [if_pos hsimple, Option.map_eq_none_iff] at h
      rw [Trail.selection?_rebound, h]
      rfl
    · rfl
  | _ => rfl

/-- A result variable has the type of the selection built anew. -/
theorem resultVariable?_rebuilt {selections : List Selection}
    (hvariables : VariablesStand selections before) {written : Phrase.Expression}
    {value : Expression} (h : resultVariable? before.trail written = some value) :
    ∃ value', resultVariable? (before.trail.rebound choice) written = some value'
      ∧ ∀ collation order, .mk value' collation order
        = sortItemRebuilt selections true (FromElement.rebound choice)
          (.mk value collation order) := by
  cases written with
  | path path =>
    simp only [resultVariable?] at h ⊢
    split at h
    · rename_i hsimple
      obtain ⟨result, hresult, rfl⟩ := Option.map_eq_some_iff.mp h
      rw [if_pos hsimple, Trail.selection?_rebound, hresult]
      refine ⟨_, rfl, fun collation order => ?_⟩
      obtain ⟨hmem, -⟩ := Trail.selection?_some hresult
      have htype : selectionType?
          (selections.map (Selection.rebuilt true (FromElement.rebound choice))) result.position
          = (result.expression.rebuilt true (FromElement.rebound choice)).type? := by
        rw [selectionType?, List.getElem?_map, hvariables result hmem]
        rfl
      change SortItem.mk _ _ _ = SortItem.mk (.selection _ _ _) _ _
      rw [htype]
      rfl
    · cases h
  | _ => cases h

theorem sortItem_mirrors {selections : List Selection} {written : Phrase.Expression}
    (hfits : before.Fits choice) (hvariables : VariablesStand selections before)
    (hwritten : Rebuilds Expression.rebuilt schema choice before (expression written))
    (collation ordering : Option String) :
    Rebuilds (sortItemRebuilt selections) schema choice before
      (sortItem (.mk written collation ordering)) := by
  have hfinish : ∀ {context : Context} {value value' : Expression}, context.Fits choice →
      (∀ order, .mk value' collation order = sortItemRebuilt selections true
        (FromElement.rebound choice) (.mk value collation order)) →
      Mirrors (Becomes (sortItemRebuilt selections true (FromElement.rebound choice))) schema choice
        context
        (do
          let order ← ofExcept (sortOrder ordering)
          return SortItem.mk value collation order)
        (do
          let order ← ofExcept (sortOrder ordering)
          return SortItem.mk value' collation order) := by
    intro context value value' hcontext hvalue
    refine mirrors_bind (mirrors_ofExcept (R := Eq) hcontext
      fun _ _ horder horder' => Except.ok.inj (horder.symm.trans horder')) ?_
    rintro order _ between rfl hfits
    exact mirrors_pure hfits (hvalue order)
  rw [Rebuilds, sortItem]
  refine together_get_bind ?_
  dsimp only
  rw [Context.trail_rebound]
  cases hresult : resultVariable? before.trail written with
  | some value =>
    obtain ⟨value', hvalue', hitem⟩ := resultVariable?_rebuilt hvariables hresult
    rw [hvalue']
    exact hfinish hfits fun order => hitem collation order
  | none =>
    rw [resultVariable?_rebound before.trail written hresult]
    refine together_bind (together_with hwritten (expression_plain written)) ?_
    rintro value _ between _ ⟨⟨rfl, rfl, hfollows⟩, hplain⟩
    refine together_mono (hfinish hfollows.fits fun order => ?_) ?_
    · have hkept : (value.rebuilt true (FromElement.rebound choice)).isVariable = false := by
        rw [Expression.isVariable_rebuilt]
        exact hplain
      exact (SortItem.retyped_eq hkept).symm
    · rintro item item' after after' ⟨hitem, hafter, hlater⟩
      exact ⟨hitem, hafter, hfollows.trans hlater⟩

/-! ## Clauses behind the from clause -/

/-- The clauses wait for the spaces of either state. -/
theorem clauses_mirror {select : Option Phrase.SelectClause} {condition : Option Phrase.Predicate}
    {ordering : Option (List Phrase.SortItem)} {limit offset : Option Phrase.Expression}
    (hnone : before.trail.results = [])
    (hselect : Selects schema choice before Prod.snd
      (Prod.map id (List.map (Selection.rebuilt true (FromElement.rebound choice)))) 0
      (selectClause select))
    (hcondition : ∀ {between : Context}, between.Fits choice →
      Rebuilds (fun retypes visit => Option.map (Predicate.rebuilt retypes visit)) schema choice
        between (restriction condition))
    (hordering : ∀ {between : Context} {selections : List Selection}, between.Fits choice →
      VariablesStand selections between →
      Rebuilds (fun retypes visit =>
          Option.map (List.map (sortItemRebuilt selections retypes visit)))
        schema choice between (order ordering))
    (hlimit : ∀ {between : Context}, between.Fits choice →
      Rebuilds (fun retypes visit => Option.map (Expression.rebuilt retypes visit)) schema choice
        between (optional limit))
    (hoffset : ∀ {between : Context}, between.Fits choice →
      Rebuilds (fun retypes visit => Option.map (Expression.rebuilt retypes visit)) schema choice
        between (optional offset)) :
    Together schema before (before.rebound choice) (clauses select condition ordering limit offset)
      (clauses select condition ordering limit offset) fun value value' after after' =>
      (∀ spaces, value' (spaces.map (Space.rebuilt true (FromElement.rebound choice)))
        = (value spaces).rebuilt true (FromElement.rebound choice))
      ∧ after' = after.rebound choice ∧ before.Continues choice after := by
  refine together_bind hselect ?_
  rintro ⟨distinct, selections⟩ _ first _ ⟨rfl, rfl, hfirst, hselects⟩
  refine together_bind (hcondition hfirst.fits) ?_
  rintro condition _ second _ ⟨rfl, rfl, hsecond⟩
  have hvariables : VariablesStand selections second := by
    intro result hresult
    rw [hsecond.results] at hresult
    rcases hselects result hresult with hold | ⟨place, hplace, hposition⟩
    · rw [hnone] at hold
      cases hold
    · rw [hposition, Nat.zero_add]
      exact hplace
  refine together_bind (hordering hsecond.fits hvariables) ?_
  rintro ordering _ third _ ⟨rfl, rfl, hthird⟩
  refine together_bind (hlimit hthird.fits) ?_
  rintro limit _ fourth _ ⟨rfl, rfl, hfourth⟩
  refine together_bind (hoffset hfourth.fits) ?_
  rintro offset _ fifth _ ⟨rfl, rfl, hfifth⟩
  refine together_pure ⟨fun spaces => ?_, rfl, ?_⟩
  · rw [Select.rebuilt_mk]
    have horder : ordering.map (List.map (sortItemRebuilt selections true
        (FromElement.rebound choice)))
        = retypedOrder (selections.map (Selection.rebuilt true (FromElement.rebound choice)))
          (ordering.map fun items =>
            items.map (SortItem.rebuilt true (FromElement.rebound choice))) := by
      cases ordering with
      | none => rfl
      | some items => simp [retypedOrder, sortItemRebuilt]
    exact congrArg (Select.mk _ distinct _ _ · _ _) horder
  · exact hfirst.trans (((hsecond.trans hthird).trans hfourth).trans hfifth).continues

/-- A query is finished when its level is left. -/
theorem onLevel_mirrors (hfits : before.Fits choice) {step step' : Step (List Space → Select)}
    (h : Together schema before.openLevel (before.openLevel.rebound choice) step step'
      fun value value' after after' =>
        (∀ spaces, value' (spaces.map (Space.rebuilt true (FromElement.rebound choice)))
          = (value spaces).rebuilt true (FromElement.rebound choice))
        ∧ after' = after.rebound choice ∧ before.openLevel.Continues choice after) :
    Mirrors (Becomes (Select.rebuilt true (FromElement.rebound choice))) schema choice before
      (do
        let (clauses, spaces) ← onLevel step
        return clauses spaces)
      (do
        let (clauses, spaces) ← onLevel step'
        return clauses spaces) := by
  refine together_bind (Q := fun value value' after after' =>
    value'.1 value'.2 = (value.1 value.2).rebuilt true (FromElement.rebound choice)
      ∧ after' = after.rebound choice ∧ before.Follows choice after)
    (together_onLevel (together_mono h ?_)) ?_
  · rintro clauses clauses' after _ ⟨hclauses, rfl, hcontinues⟩ spaces spaces' hclose hclose'
    rw [Context.rebound, Levels.headD_rebound] at hclose'
    refine ⟨?_, Context.leaveLevel_rebound after, hcontinues.leaveLevel hfits⟩
    rw [Levels.close_rebound hclose hclose']
    exact hclauses spaces
  · rintro ⟨clauses, spaces⟩ ⟨clauses', spaces'⟩ after after' h
    exact together_pure h

mutual

theorem expression_mirrors : ∀ (written : Phrase.Expression) {before : Context},
    before.Fits choice → Rebuilds Expression.rebuilt schema choice before (expression written)
  | .literal token, _, hfits => literal_mirrors hfits token
  | .parameter written, _, hfits => parameter_mirrors hfits written
  | .path dotted, _, hfits => pathOrCall_mirrors hfits dotted
  | .indexed base index remainder, _, hfits => by
    refine mirrors_bind (expression_mirrors index hfits) ?_
    rintro value _ between rfl hfits
    exact indexed_mirrors hfits base value remainder
  | .treated base entity remainder, _, hfits => treated_mirrors hfits base entity remainder
  | .mapFunction function argument, _, hfits => mapEntry_mirrors hfits function argument
  | .arithmetic _ [left, right], _, hfits =>
    two_mirror (expression_mirrors left hfits) (expression_mirrors right) fun _ _ => rfl
  | .arithmetic _ [], _, _ => together_throw _ _
  | .arithmetic _ [_], _, _ => together_throw _ _
  | .arithmetic _ (_ :: _ :: _ :: _), _, _ => together_throw _ _
  | .concatenation [left, right], _, hfits =>
    two_mirror (expression_mirrors left hfits) (expression_mirrors right) fun _ _ => rfl
  | .concatenation [], _, _ => together_throw _ _
  | .concatenation [_], _, _ => together_throw _ _
  | .concatenation (_ :: _ :: _ :: _), _, _ => together_throw _ _
  | .unary _ operand, _, hfits => one_mirrors (expression_mirrors operand hfits) fun _ => rfl
  | .grouped inner, _, hfits => expression_mirrors inner hfits
  | .call _ _ _ _ [], _, hfits =>
    call_mirrors hfits (fun _ h => by cases h) (expressions_mirror [])
  | .call _ _ _ _ [argument], _, hfits =>
    call_mirrors hfits
      (fun _ h => by
        cases h
        exact expression_mirrors argument)
      (expressions_mirror [argument])
  | .call _ _ _ _ (first :: second :: rest), _, hfits =>
    call_mirrors hfits (fun _ h => by cases h) (expressions_mirror (first :: second :: rest))
  | .simpleCase operand whens otherwise, _, hfits =>
    three_mirror (expression_mirrors operand hfits) (simpleWhens_mirror whens)
      (optional_mirrors otherwise) fun one two three => by rw [Expression.rebuilt_simpleCase]; rfl
  | .searchedCase whens otherwise, _, hfits =>
    two_mirror (searchedWhens_mirror whens hfits) (optional_mirrors otherwise)
      fun one two => by rw [Expression.rebuilt_searchedCase]; rfl
  | .subquery nested, _, hfits => one_mirrors (query_mirrors nested true hfits) fun _ => rfl

theorem expressions_mirror : ∀ (written : List Phrase.Expression) {before : Context},
    before.Fits choice →
      Rebuilds (fun retypes visit => List.map (Expression.rebuilt retypes visit)) schema choice
        before
        (expressions written)
  | [], _, hfits => mirrors_pure hfits rfl
  | first :: rest, _, hfits =>
    two_mirror (expression_mirrors first hfits) (expressions_mirror rest) fun _ _ => rfl

theorem optional_mirrors : ∀ (written : Option Phrase.Expression) {before : Context},
    before.Fits choice →
      Rebuilds (fun retypes visit => Option.map (Expression.rebuilt retypes visit)) schema choice
        before (optional written)
  | none, _, hfits => mirrors_pure hfits rfl
  | some written, _, hfits => one_mirrors (expression_mirrors written hfits) fun _ => rfl

theorem simpleWhen_mirrors : ∀ (written : Phrase.SimpleWhen) {before : Context},
    before.Fits choice → Rebuilds SimpleWhen.rebuilt schema choice before (simpleWhen written)
  | .mk value result, _, hfits =>
    two_mirror (expression_mirrors value hfits) (expression_mirrors result) fun _ _ => rfl

theorem simpleWhens_mirror : ∀ (written : List Phrase.SimpleWhen) {before : Context},
    before.Fits choice →
      Rebuilds (fun retypes visit => List.map (SimpleWhen.rebuilt retypes visit)) schema choice
        before
        (simpleWhens written)
  | [], _, hfits => mirrors_pure hfits rfl
  | first :: rest, _, hfits =>
    two_mirror (simpleWhen_mirrors first hfits) (simpleWhens_mirror rest) fun _ _ => rfl

theorem searchedWhen_mirrors : ∀ (written : Phrase.SearchedWhen) {before : Context},
    before.Fits choice → Rebuilds SearchedWhen.rebuilt schema choice before (searchedWhen written)
  | .mk condition result, _, hfits =>
    two_mirror (predicate_mirrors condition hfits) (expression_mirrors result) fun _ _ => rfl

theorem searchedWhens_mirror : ∀ (written : List Phrase.SearchedWhen) {before : Context},
    before.Fits choice →
      Rebuilds (fun retypes visit => List.map (SearchedWhen.rebuilt retypes visit)) schema choice
        before (searchedWhens written)
  | [], _, hfits => mirrors_pure hfits rfl
  | first :: rest, _, hfits =>
    two_mirror (searchedWhen_mirrors first hfits) (searchedWhens_mirror rest) fun _ _ => rfl

theorem predicate_mirrors : ∀ (written : Phrase.Predicate) {before : Context},
    before.Fits choice → Rebuilds Predicate.rebuilt schema choice before (predicate written)
  | .and left right, _, hfits =>
    two_mirror (predicate_mirrors left hfits) (predicate_mirrors right) fun _ _ => rfl
  | .or left right, _, hfits =>
    two_mirror (predicate_mirrors left hfits) (predicate_mirrors right) fun _ _ => rfl
  | .not inner, _, hfits => one_mirrors (predicate_mirrors inner hfits) fun _ => rfl
  | .grouped inner, _, hfits => one_mirrors (predicate_mirrors inner hfits) fun _ => rfl
  | .comparison _ left right, _, hfits =>
    two_mirror (expression_mirrors left hfits) (expression_mirrors right) fun _ _ => rfl
  | .between tested lower upper _, _, hfits =>
    three_mirror (expression_mirrors tested hfits) (expression_mirrors lower)
      (expression_mirrors upper) fun _ _ _ => rfl
  | .like matched pattern escape negated, _, hfits =>
    three_mirror (expression_mirrors matched hfits) (expression_mirrors pattern)
      (optional_mirrors escape)
      fun one two three => (Predicate.rebuilt_like one two three negated).symm
  | .inList tested items negated, _, hfits =>
    two_mirror (expression_mirrors tested hfits) (expressions_mirror items)
      fun one two => (Predicate.rebuilt_inList one two negated).symm
  | .inSubquery tested operand _, _, hfits => by
    cases operand with
    | subquery nested =>
      exact two_mirror (expression_mirrors tested hfits) (query_mirrors nested true) fun _ _ => rfl
    | _ =>
      exact mirrors_bind (expression_mirrors tested hfits) fun _ _ _ _ _ => together_throw _ _
  | .isNull tested _, _, hfits => one_mirrors (expression_mirrors tested hfits) fun _ => rfl
  | .isEmpty collection _, _, hfits => isEmpty_mirrors (expression_mirrors collection hfits)
  | .memberOf element collection _, _, hfits =>
    memberOf_mirrors (expression_mirrors element hfits) (expression_mirrors collection)
  | .existence operand _, _, hfits => by
    cases operand with
    | subquery nested => exact one_mirrors (query_mirrors nested true hfits) fun _ => rfl
    | _ => exact together_throw _ _

theorem restriction_mirrors : ∀ (written : Option Phrase.Predicate) {before : Context},
    before.Fits choice →
      Rebuilds (fun retypes visit => Option.map (Predicate.rebuilt retypes visit)) schema choice
        before (restriction written)
  | none, _, hfits => mirrors_pure hfits rfl
  | some written, _, hfits => one_mirrors (predicate_mirrors written hfits) fun _ => rfl

theorem selectExpression_mirrors : ∀ (written : Phrase.SelectExpression) {before : Context},
    before.Fits choice →
      Rebuilds Expression.rebuilt schema choice before (selectExpression written)
  | .instantiation _ items, _, hfits => instantiation_mirrors hfits (arguments_mirror items)
  | .object name, _, hfits => by
    refine mirrors_bind (identificationVariable_mirrors hfits name) ?_
    rintro element _ between ⟨rfl, -⟩ hfits
    exact mirrors_pure hfits rfl
  | .expression written, _, hfits => expression_mirrors written hfits

theorem arguments_mirror : ∀ (written : List Phrase.SelectItem) {before : Context},
    before.Fits choice →
      Rebuilds (fun retypes visit => List.map (Argument.rebuilt retypes visit)) schema choice before
        (arguments written)
  | [], _, hfits => mirrors_pure hfits rfl
  | .mk written _ :: rest, _, hfits =>
    two_mirror (selectExpression_mirrors written hfits) (arguments_mirror rest) fun _ _ => rfl

theorem selections_mirror : ∀ (written : List Phrase.SelectItem) (position : Nat)
    {before : Context}, before.Fits choice →
      Selects schema choice before id
        (List.map (Selection.rebuilt true (FromElement.rebound choice))) position
        (selections written position)
  | [], _, _, hfits =>
    together_pure ⟨rfl, rfl, (Context.Follows.refl hfits).continues, fun _ hresult => .inl hresult⟩
  | .mk written alias? :: rest, position, before, hfits => by
    refine together_bind (checkVariable_mirrors hfits alias?) ?_
    rintro _ _ zeroth _ ⟨-, rfl, hzeroth⟩
    refine together_bind (selectExpression_mirrors written hzeroth.fits) ?_
    rintro value _ first _ ⟨rfl, rfl, hfirst⟩
    refine together_bind (bindSelection_together hfirst.fits position (.mk value alias?)) ?_
    rintro _ _ second _ ⟨rfl, hsecond, hbind⟩
    refine together_bind (selections_mirror rest (position + 1) hsecond.fits) ?_
    rintro values _ third _ ⟨rfl, rfl, hthird, hselects⟩
    have hboth := hzeroth.trans hfirst
    exact together_pure ⟨rfl, rfl, (hboth.continues.trans hsecond).trans hthird,
      hselects.cons hboth.results hbind⟩

theorem selectClause_mirrors : ∀ (written : Option Phrase.SelectClause) {before : Context},
    before.Fits choice →
      Selects schema choice before Prod.snd
        (Prod.map id (List.map (Selection.rebuilt true (FromElement.rebound choice)))) 0
        (selectClause written)
  | none, _, hfits => by
    refine together_bind (implicitSelection_mirrors hfits) ?_
    rintro values _ after _ ⟨rfl, rfl, hafter, hselects⟩
    exact together_pure ⟨rfl, rfl, hafter, hselects⟩
  | some (.mk _ items), _, hfits => by
    refine together_bind (selections_mirror items 0 hfits) ?_
    rintro values _ after _ ⟨rfl, rfl, hafter, hselects⟩
    exact together_pure ⟨rfl, rfl, hafter, hselects⟩

theorem join_mirrors : ∀ (written : Phrase.Join) (id : SpaceId) {before : Context},
    before.Fits choice →
      Mirrors (fun _ _ => True) schema choice before (join id written) (join id written)
  | .cross written, id, before, hfits => by
    refine mirrors_bind (entity_mirrors hfits written.entity) ?_
    rintro entity _ first rfl hfits
    refine mirrors_bind (checkVariable_mirrors hfits written.alias?) ?_
    rintro _ _ second _ hfits
    refine mirrors_bind (crossJoin_mirrors hfits id entity written.alias?) ?_
    rintro _ _ third _ hfits
    exact mirrors_pure hfits trivial
  | .collection path alias?, id, _, hfits => memberJoin_mirrors hfits id path alias?
  | .qualified type fetch target alias? condition, id, before, hfits => by
    rw [join]
    refine mirrors_bind (checkVariable_mirrors hfits alias?) ?_
    rintro _ _ first _ hfits
    refine mirrors_bind (mirrors_comply hfits) ?_
    rintro _ _ second _ hfits
    refine mirrors_bind (joinTarget_mirrors hfits id target alias? type fetch) ?_
    rintro element _ third ⟨rfl, -⟩ hfits
    cases condition with
    | none => exact mirrors_pure hfits trivial
    | some written =>
      refine mirrors_bind (mirrors_under hfits fun context hcontext =>
        predicate_mirrors written hcontext) ?_
      rintro condition _ fourth rfl hfits
      refine updateSpace_mirrors hfits id fun space filled filled' hfilled hfilled' => ?_
      cases hfilled
      cases hfilled'
      rw [FromElement.uid_rebound]
      exact OpenSpace.restrict_rebound space element.uid condition

theorem joins_mirror : ∀ (written : List Phrase.Join) (id : SpaceId) {before : Context},
    before.Fits choice →
      Mirrors (fun _ _ => True) schema choice before (joins id written) (joins id written)
  | [], _, _, hfits => mirrors_pure hfits trivial
  | first :: rest, id, _, hfits =>
    mirrors_bind (join_mirrors first id hfits) fun _ _ _ _ hbetween =>
      joins_mirror rest id hbetween

theorem space_mirrors : ∀ (written : Phrase.Space) {before : Context}, before.Fits choice →
    Mirrors (fun _ _ => True) schema choice before (space written) (space written)
  | .mk written hanging, before, hfits => by
    refine mirrors_bind (openSpace_mirrors hfits) ?_
    rintro _ id first rfl hfits
    refine mirrors_bind (root_mirrors hfits id written) ?_
    rintro _ _ second _ hfits
    exact joins_mirror hanging id hfits

theorem spaces_mirror : ∀ (written : List Phrase.Space) {before : Context}, before.Fits choice →
    Mirrors (fun _ _ => True) schema choice before (spaces written) (spaces written)
  | [], _, hfits => mirrors_pure hfits trivial
  | first :: rest, _, hfits =>
    mirrors_bind (space_mirrors first hfits) fun _ _ _ _ hbetween => spaces_mirror rest hbetween

theorem sortItems_mirror : ∀ (written : List Phrase.SortItem) {selections : List Selection}
    {before : Context}, before.Fits choice → VariablesStand selections before →
      Rebuilds (fun retypes visit => List.map (sortItemRebuilt selections retypes visit)) schema
        choice before (sortItems written)
  | [], _, _, hfits, _ => mirrors_pure hfits rfl
  | .mk written collation ordering :: rest, selections, before, hfits, hvariables => by
    refine mirrors_follow (sortItem_mirrors hfits hvariables (expression_mirrors written hfits)
      collation ordering) ?_
    rintro item _ between rfl hfollows
    refine mirrors_bind (sortItems_mirror rest hfollows.fits (hvariables.follow hfollows)) ?_
    rintro items _ after rfl hfits
    exact mirrors_pure hfits rfl

theorem order_mirrors : ∀ (written : Option (List Phrase.SortItem)) {selections : List Selection}
    {before : Context}, before.Fits choice → VariablesStand selections before →
      Rebuilds (fun retypes visit =>
          Option.map (List.map (sortItemRebuilt selections retypes visit)))
        schema choice before (order written)
  | none, _, _, hfits, _ => mirrors_pure hfits rfl
  | some written, _, _, hfits, hvariables =>
    one_mirrors (sortItems_mirror written hfits hvariables) fun _ => rfl

theorem query_mirrors : ∀ (written : Phrase.Query) (nested : Bool) {before : Context},
    before.Fits choice → Rebuilds Select.rebuilt schema choice before (query written nested)
  | .mk select written condition ordering limit offset, nested, before, hfits => by
    refine mirrors_bind (mirrors_comply hfits) ?_
    rintro _ _ first _ hfits
    refine mirrors_bind (mirrors_comply hfits) ?_
    rintro _ _ second _ hfits
    refine onLevel_mirrors hfits ?_
    refine together_bind (spaces_mirror written hfits.openLevel) ?_
    rintro _ _ third _ ⟨-, rfl, hthird⟩
    refine together_mono (clauses_mirror hthird.results (selectClause_mirrors select hthird.fits)
      (restriction_mirrors condition) (order_mirrors ordering) (optional_mirrors limit)
      (optional_mirrors offset)) ?_
    rintro clauses clauses' after after' ⟨hclauses, hafter, hcontinues⟩
    exact ⟨hclauses, hafter, hthird.continues.trans hcontinues⟩

end

end EntityQuery.Interpretation.Step

import EntityQuery.Proofs.RenderedQueries
import EntityQuery.Proofs.TracedClauses

/-!
# What queries are traced to

Every step of a query makes a tree in which the paths of the phrase are traced. The proof follows
the recursion of the steps on the phrase, one case for each form. The clauses of a query see all
elements of its from clause, a nested query those of the queries around it as well, and when it is
left they are what they were.

* `Step.expression_traces`, `Step.predicate_traces`, `Step.query_traces`.
-/

namespace EntityQuery.Interpretation.Step

variable {schema : Schema} {bulk : Bool} {visible : List FromElement} {before : Context}

/-! ## Steps put together -/

section

variable {α β γ δ : Type} {first : Step α} {second : Step β} {third : Step γ}
  {traces : δ → Prop} {tracesFirst : α → Prop} {tracesSecond : β → Prop} {tracesThird : γ → Prop}

/-- A tree over one part. -/
theorem one_traces {combine : α → δ}
    (hfirst : Tracing bulk visible tracesFirst schema before first)
    (htraces : ∀ value, tracesFirst value → traces (combine value)) :
    Tracing bulk visible traces schema before (do
      let value ← first
      return combine value) :=
  ends_bind hfirst fun value _ h => ends_pure ⟨h.1, htraces value h.2⟩

/-- A tree over two parts, the first of which is built before the second. -/
theorem two_trace {combine : α → β → δ}
    (hfirst : Tracing bulk visible tracesFirst schema before first)
    (hsecond : ∀ {between : Context}, between.Stands schema bulk visible →
      Tracing bulk visible tracesSecond schema between second)
    (htraces : ∀ value other, tracesFirst value → tracesSecond other →
      traces (combine value other)) :
    Tracing bulk visible traces schema before (do
      let value ← first
      let other ← second
      return combine value other) :=
  ends_bind hfirst fun value _ hvalue =>
    one_traces (hsecond hvalue.1) fun other => htraces value other hvalue.2

/-- A tree over three parts. -/
theorem three_trace {combine : α → β → γ → δ}
    (hfirst : Tracing bulk visible tracesFirst schema before first)
    (hsecond : ∀ {between : Context}, between.Stands schema bulk visible →
      Tracing bulk visible tracesSecond schema between second)
    (hthird : ∀ {between : Context}, between.Stands schema bulk visible →
      Tracing bulk visible tracesThird schema between third)
    (htraces : ∀ value other last, tracesFirst value → tracesSecond other → tracesThird last →
      traces (combine value other last)) :
    Tracing bulk visible traces schema before (do
      let value ← first
      let other ← second
      let last ← third
      return combine value other last) :=
  ends_bind hfirst fun value _ hvalue =>
    two_trace (hsecond hvalue.1) hthird fun other last => htraces value other last hvalue.2

/-- A step that binds no written element and keeps the state sound. -/
theorem keeps_stands {step : Step α} (hstands : before.Stands schema bulk visible)
    (hkeeps : Moves schema False Context.KeepsVariables before step)
    (hsound : Ends schema before step fun _ after => after.Sound schema False) :
    Ends schema before step fun _ after => after.Stands schema bulk visible :=
  ends_mono (ends_both hkeeps.ends hsound) fun _ _ h => hstands.same h.1.same h.2

end

/-- For an expression only the tree is left to look at. -/
theorem expression_traced (hstands : before.Stands schema bulk visible)
    {written : Phrase.Expression} {traces : Resolved.Expression → Prop}
    (h : Ends schema before (expression written) fun value _ => traces value) :
    Tracing bulk visible traces schema before (expression written) :=
  ends_both (keeps_stands hstands
    (expression_moves (keepsVariables schema) written (written.meets treating_always))
    (ends_mono (expression_builds written (fun h => h.elim) hstands.sound)
      fun _ _ h => h.1.sound)) h

/-! ## Forms with checks of their own -/

theorem indexed_traces {index : Phrase.Expression} (hstands : before.Stands schema bulk visible)
    (hindex : Tracing bulk visible (index.Traces bulk visible) schema before (expression index))
    (base : DottedName) (remainder : Option DottedName) :
    Tracing bulk visible ((Phrase.Expression.indexed base index remainder).Traces bulk visible)
      schema before (expression (.indexed base index remainder)) := by
  refine expression_traced hstands (ends_bind hindex ?_)
  rintro rendered between ⟨hbetween, hrendered⟩
  refine ends_mono (ends_both (indexed_indices base rendered remainder)
    (indexed_leads hbetween base rendered remainder)) ?_
  rintro value after ⟨hindices, hcollection⟩
  exact ⟨⟨rendered, hindices, hrendered⟩, hcollection⟩

theorem call_traces {name : String} {generic distinct star : Bool}
    {arguments : List Phrase.Expression} (hstands : before.Stands schema bulk visible)
    (hone : ∀ argument, arguments = [argument] → ∀ {between : Context},
      between.Stands schema bulk visible →
      Tracing bulk visible (argument.Traces bulk visible) schema between (expression argument))
    (hall : ∀ {between : Context}, between.Stands schema bulk visible →
      Tracing bulk visible (Phrase.expressionsTrace bulk visible arguments) schema between
        (expressions arguments)) :
    Tracing bulk visible
      ((Phrase.Expression.call name generic distinct star arguments).Traces bulk visible) schema
      before (expression (.call name generic distinct star arguments)) := by
  refine expression_traced hstands ?_
  simp only [expression, Phrase.Expression.Traces]
  generalize (if generic = true then none else CollectionFunction.ofName? name) = found
  cases found with
  | some function =>
    refine ends_bind (keeps_stands hstands
      (announceCollectionFunction_moves (keepsVariables schema) function)
      (ends_mono (announceCollectionFunction_ends hstands.sound function)
        fun _ _ h => h.sound)) ?_
    rintro _ between hbetween
    split
    · rename_i argument
      split
      · rename_i hindex
        refine ends_mono (indexOfJoin_form argument) ?_
        rintro value after ⟨dotted, join, type?, -, rfl⟩
        subst hindex
        exact ⟨_, _, rfl, .inl rfl⟩
      · refine ends_bind (hone argument rfl hbetween) ?_
        rintro value after ⟨-, hvalue⟩
        refine ends_mono (collectionFunction_form function value) ?_
        rintro node _ ⟨-, type?, rfl⟩
        exact ⟨value, type?, rfl, .inr ⟨value, [], rfl, hvalue, rfl⟩⟩
    · exact ends_throw _
  | none =>
    refine ends_bind (keeps_stands hstands
      (announceCall_moves (keepsVariables schema) name generic _)
      (ends_mono (announceCall_ends hstands.sound name generic _) fun _ _ h => h.sound)) ?_
    rintro _ between hbetween
    refine ends_bind (hall hbetween) ?_
    rintro values after ⟨-, hvalues⟩
    exact ends_pure ⟨_, values, _, rfl, hvalues⟩

/-- The left operand of a predicate on collections is kept as a collection. -/
theorem isEmpty_traces {written : Phrase.Expression} {negated : Bool}
    (h : Tracing bulk visible (written.Traces bulk visible) schema before (expression written)) :
    Tracing bulk visible ((Phrase.Predicate.isEmpty written negated).Traces bulk visible) schema
      before (predicate (.isEmpty written negated)) := by
  refine ends_bind h ?_
  rintro value between ⟨hstands, hvalue⟩
  refine ends_bind (pluralOperand_ends (Q := fun collection after => between = after
    ∧ value = .reference collection) fun _ hform _ => ⟨rfl, hform⟩) ?_
  rintro collection _ ⟨rfl, rfl⟩
  exact ends_pure ⟨hstands, collection, rfl, hvalue⟩

theorem memberOf_traces {element collection : Phrase.Expression} {negated : Bool}
    (helement : Tracing bulk visible (element.Traces bulk visible) schema before
      (expression element))
    (hcollection : ∀ {between : Context}, between.Stands schema bulk visible →
      Tracing bulk visible (collection.Traces bulk visible) schema between
        (expression collection)) :
    Tracing bulk visible ((Phrase.Predicate.memberOf element collection negated).Traces bulk visible)
      schema before (predicate (.memberOf element collection negated)) := by
  refine ends_bind helement ?_
  rintro value between ⟨hstands, hvalue⟩
  refine ends_bind (pluralOperand_ends (Q := fun plural after => between = after
    ∧ value = .reference plural) fun _ hform _ => ⟨rfl, hform⟩) ?_
  rintro plural _ ⟨rfl, rfl⟩
  exact one_traces (hcollection hstands) fun other hother => ⟨plural, other, rfl, hvalue, hother⟩

theorem simpleWhens_trace_cons {value result : Phrase.Expression} {rest : List Phrase.SimpleWhen}
    (hvalue : Tracing bulk visible (value.Traces bulk visible) schema before (expression value))
    (hresult : ∀ {between : Context}, between.Stands schema bulk visible →
      Tracing bulk visible (result.Traces bulk visible) schema between (expression result))
    (hrest : ∀ {between : Context}, between.Stands schema bulk visible →
      Tracing bulk visible (Phrase.simpleWhensTrace bulk visible rest) schema between
        (simpleWhens rest)) :
    Tracing bulk visible (Phrase.simpleWhensTrace bulk visible (.mk value result :: rest)) schema
      before (simpleWhens (.mk value result :: rest)) := by
  have hfirst : Tracing bulk visible (fun node => ∃ compared found,
      node = Resolved.SimpleWhen.mk compared found ∧ value.Traces bulk visible compared
        ∧ result.Traces bulk visible found) schema before (simpleWhen (.mk value result)) :=
    two_trace hvalue hresult fun compared found hcompared hfound =>
      ⟨compared, found, rfl, hcompared, hfound⟩
  refine two_trace hfirst hrest ?_
  rintro _ others ⟨compared, found, rfl, hcompared, hfound⟩ hothers
  exact ⟨compared, found, others, rfl, hcompared, hfound, hothers⟩

theorem searchedWhens_trace_cons {condition : Phrase.Predicate} {result : Phrase.Expression}
    {rest : List Phrase.SearchedWhen}
    (hcondition : Tracing bulk visible (condition.Traces bulk visible) schema before
      (predicate condition))
    (hresult : ∀ {between : Context}, between.Stands schema bulk visible →
      Tracing bulk visible (result.Traces bulk visible) schema between (expression result))
    (hrest : ∀ {between : Context}, between.Stands schema bulk visible →
      Tracing bulk visible (Phrase.searchedWhensTrace bulk visible rest) schema between
        (searchedWhens rest)) :
    Tracing bulk visible (Phrase.searchedWhensTrace bulk visible (.mk condition result :: rest))
      schema before (searchedWhens (.mk condition result :: rest)) := by
  have hfirst : Tracing bulk visible (fun node => ∃ tested found,
      node = Resolved.SearchedWhen.mk tested found ∧ condition.Traces bulk visible tested
        ∧ result.Traces bulk visible found) schema before
      (searchedWhen (.mk condition result)) :=
    two_trace hcondition hresult fun tested found htested hfound =>
      ⟨tested, found, rfl, htested, hfound⟩
  refine two_trace hfirst hrest ?_
  rintro _ others ⟨tested, found, rfl, htested, hfound⟩ hothers
  exact ⟨tested, found, others, rfl, htested, hfound, hothers⟩

theorem instantiation_traces {target : Phrase.Target} {items : List Phrase.SelectItem}
    (hitems : Tracing false visible (Phrase.argumentsTrace visible items) schema before
      (arguments items)) :
    Tracing false visible
      ((Phrase.SelectExpression.instantiation target items).Traces visible) schema before
      (selectExpression (.instantiation target items)) := by
  refine ends_bind (instantiationTarget_ends (Q := fun _ after => before = after)
    fun _ => rfl) ?_
  rintro made _ rfl
  exact one_traces hitems fun values hvalues => ⟨made, values, rfl, hvalues⟩

theorem object_traces (hstands : before.Stands schema false visible) (name : String) :
    Tracing false visible ((Phrase.SelectExpression.object name).Traces visible) schema before
      (selectExpression (.object name)) := by
  refine ends_bind (keeps_stands hstands
    (.of_stays (keepsVariables schema).refl (identificationVariable_stays name))
    (ends_mono (identificationVariable_finds hstands.sound name) fun _ _ h => h.1.sound)) ?_
  exact fun _ _ h => ends_pure ⟨h, trivial⟩

/-! ## Selections and orders -/

/-- Result variables are not seen. -/
theorem bindSelection_stands (hstands : before.Stands schema bulk visible) (position : Nat)
    (selection : Resolved.Selection) :
    Ends schema before (bindSelection position selection) fun _ after =>
      after.Stands schema bulk visible :=
  keeps_stands hstands
    (bindSelection_moves (keepsVariables schema) variablesSelecting position selection)
    (ends_bindSelection fun _ hbind => (hstands.sound.selects hbind).sound)

theorem selections_trace_cons {written : Phrase.SelectExpression} {alias? : Option String}
    {rest : List Phrase.SelectItem} {position : Nat}
    (hfirst : Tracing false visible (written.Traces visible) schema before
      (selectExpression written))
    (hrest : ∀ {between : Context}, between.Stands schema false visible →
      Tracing false visible (Phrase.selectionsTrace visible rest) schema between
        (selections rest (position + 1))) :
    Tracing false visible (Phrase.selectionsTrace visible (.mk written alias? :: rest)) schema
      before (selections (.mk written alias? :: rest) position) := by
  refine ends_bind (ends_checkVariable (Q := fun _ after => before = after) rfl) ?_
  rintro _ _ rfl
  refine ends_bind hfirst ?_
  rintro value first ⟨hstands, hvalue⟩
  refine ends_bind (bindSelection_stands hstands position _) fun _ second hsecond => ?_
  exact one_traces (hrest hsecond) fun others hothers => ⟨value, others, rfl, hvalue, hothers⟩

/-- An item of an order is traced, or it stands for a result variable. -/
theorem sortItem_traces {written : Phrase.Expression} {collation ordering : Option String}
    (hstands : before.Stands schema false visible)
    (hwritten : Tracing false visible (written.Traces false visible) schema before
      (expression written)) :
    Tracing false visible (fun item : Resolved.SortItem => ∃ value order,
        item = .mk value collation order ∧ ((∃ path, written = .path path) ∧ value.isVariable = true
          ∨ written.Traces false visible value)) schema before
      (sortItem (.mk written collation ordering)) := by
  rw [sortItem]
  have hfinish : ∀ {context : Context} {value : Resolved.Expression},
      context.Stands schema false visible →
      ((∃ path, written = .path path) ∧ value.isVariable = true
        ∨ written.Traces false visible value) →
      Ends schema context (do
        let order ← ofExcept (sortOrder ordering)
        return Resolved.SortItem.mk value collation order) fun item after =>
          after.Stands schema false visible ∧ ∃ value order, item = .mk value collation order
            ∧ ((∃ path, written = .path path) ∧ value.isVariable = true
              ∨ written.Traces false visible value) := by
    intro context value hcontext hvalue
    refine ends_bind (ends_ofExcept (Q := fun _ after => context = after) fun _ _ => rfl) ?_
    rintro order _ rfl
    exact ends_pure ⟨hcontext, value, order, rfl, hvalue⟩
  refine ends_get_bind ?_
  dsimp only
  split
  · rename_i value hvariable
    obtain ⟨path, rfl⟩ : ∃ path, written = .path path := by
      cases written with
      | path path => exact ⟨path, rfl⟩
      | _ => cases hvariable
    obtain ⟨result, -, rfl⟩ := resultVariable?_some hvariable
    exact hfinish hstands (.inl ⟨⟨path, rfl⟩, rfl⟩)
  · exact ends_bind hwritten fun value _ h => hfinish h.1 (.inr h.2)

theorem sortItems_trace_cons {written : Phrase.Expression} {collation ordering : Option String}
    {rest : List Phrase.SortItem} (hstands : before.Stands schema false visible)
    (hwritten : Tracing false visible (written.Traces false visible) schema before
      (expression written))
    (hrest : ∀ {between : Context}, between.Stands schema false visible →
      Tracing false visible (Phrase.sortItemsTrace visible rest) schema between
        (sortItems rest)) :
    Tracing false visible (Phrase.sortItemsTrace visible (.mk written collation ordering :: rest))
      schema before (sortItems (.mk written collation ordering :: rest)) := by
  refine two_trace (sortItem_traces hstands hwritten) hrest ?_
  rintro _ others ⟨value, order, rfl, hvalue⟩ hothers
  exact ⟨value, order, others, rfl, hvalue, hothers⟩

/-! ## Queries -/

section

variable {select : Option Phrase.SelectClause} {written : List Phrase.Space}
  {condition : Option Phrase.Predicate} {ordering : Option (List Phrase.SortItem)}
  {limit offset : Option Phrase.Expression} {nested : Bool}

/-- A query traces its clauses one after the other; what they add to its spaces is not seen. -/
theorem clauses_trace (hstands : before.Stands schema bulk visible)
    (hspaces : ∀ {between : Context}, between.levels ≠ [] →
      between.Stands schema false visible →
      SpacesTracing visible written schema between (spaces written))
    (hselect : ∀ {between : Context} {seen : List FromElement},
      between.Stands schema false seen →
      Tracing false seen (fun value => Phrase.clauseTraces seen select value.2) schema between
        (selectClause select))
    (hcondition : ∀ {between : Context} {seen : List FromElement},
      between.Stands schema false seen →
      Tracing false seen (Phrase.restrictionTraces false seen condition) schema between
        (restriction condition))
    (hordering : ∀ {between : Context} {seen : List FromElement},
      between.Stands schema false seen →
      Tracing false seen (Phrase.orderTraces seen ordering) schema between (order ordering))
    (hlimit : ∀ {between : Context} {seen : List FromElement},
      between.Stands schema false seen →
      Tracing false seen (Phrase.optionalTraces false seen limit) schema between (optional limit))
    (hoffset : ∀ {between : Context} {seen : List FromElement},
      between.Stands schema false seen →
      Tracing false seen (Phrase.optionalTraces false seen offset) schema between
        (optional offset)) :
    Ends schema before (query (.mk select written condition ordering limit offset) nested)
      fun node _ =>
        (Phrase.Query.mk select written condition ordering limit offset).Traces visible node := by
  have hstart : before.openLevel.Stands schema false visible :=
    ⟨hstands.sound.openLevel, hstands.declared, fun h => by cases h⟩
  rw [query]
  refine ends_bind (ends_comply (Q := fun _ after => before = after) rfl) ?_
  rintro _ _ rfl
  refine ends_bind (ends_comply (Q := fun _ after => before = after) rfl) ?_
  rintro _ _ rfl
  refine ends_bind (ends_onLevel (Q := fun (value :
      (List Resolved.Space → Resolved.Select) × List Resolved.Space) _ =>
    (Phrase.Query.mk select written condition ordering limit offset).Traces visible
      (value.1 value.2)) ?_) fun value _ hvalue => ends_pure hvalue
  have motion := spreadMotion schema fun _ => True
  have hselecting : Selecting SpreadsAcross SpreadsAcross :=
    ⟨fun _ _ h => h, motion.trans, fun _ _ => .refl _⟩
  refine ends_bind (hspaces (List.cons_ne_nil _ _) hstart) ?_
  rintro _ first ⟨nodes, happends, hfirst, hnodes⟩
  refine ends_bind (ends_both (hselect hfirst) (selectClause_moves motion select hselecting
    (Phrase.clause_meets treating_always select)).ends) ?_
  rintro ⟨distinct, selections⟩ second ⟨⟨hsecond, hselections⟩, hselected⟩
  refine ends_bind (ends_both (hcondition hsecond) (restriction_moves motion condition
    (Phrase.restriction_meets treating_always condition)).ends) ?_
  rintro restricted third ⟨⟨hthird, hrestriction⟩, hrestricted⟩
  refine ends_bind (ends_both (hordering hthird) (order_moves motion ordering
    (Phrase.order_meets treating_always ordering)).ends) ?_
  rintro order fourth ⟨⟨hfourth, horder⟩, hordered⟩
  refine ends_bind (ends_both (hlimit hfourth) (optional_moves motion limit
    (Phrase.optional_meets treating_always limit)).ends) ?_
  rintro bound fifth ⟨⟨hfifth, hbound⟩, hlimited⟩
  refine ends_bind (ends_both (hoffset hfifth) (optional_moves motion offset
    (Phrase.optional_meets treating_always offset)).ends) ?_
  rintro skipped last ⟨⟨-, hskipped⟩, hoffsetted⟩
  refine ends_pure fun spaces hclose => ?_
  have hspreads :=
    (((hselected.trans hrestricted).trans hordered).trans hlimited).trans hoffsetted
  obtain ⟨finished, hfinished, hspread⟩ := happends.finished hspreads
  rw [hfinished] at hclose
  cases hclose
  rw [← seen_spread hspread] at hselections hrestriction horder hbound hskipped
  exact ⟨_, _, _, _, _, _, _, rfl, (Phrase.spacesTrace_spread hspread).mpr hnodes, hselections,
    hrestriction, horder, hbound, hskipped⟩

end

mutual

theorem expression_traces : ∀ (written : Phrase.Expression) {bulk : Bool}
    {visible : List FromElement} {before : Context}, before.Stands schema bulk visible →
      Tracing bulk visible (written.Traces bulk visible) schema before (expression written)
  | .literal _, _, _, _, hstands => expression_traced hstands fun _ _ _ => trivial
  | .parameter _, _, _, _, hstands => expression_traced hstands fun _ _ _ => trivial
  | .treated _ _ _, _, _, _, hstands => expression_traced hstands fun _ _ _ => trivial
  | .mapFunction _ _, _, _, _, hstands => expression_traced hstands fun _ _ _ => trivial
  | .path dotted, _, _, _, hstands =>
    expression_traced hstands fun value after hrun hbulk =>
      pathOrCall_leads hstands hbulk dotted value after hrun
  | .indexed base index remainder, _, _, _, hstands =>
    indexed_traces hstands (expression_traces index hstands) base remainder
  | .arithmetic _ [left, right], _, _, _, hstands =>
    two_trace (expression_traces left hstands) (expression_traces right)
      fun first second hfirst hsecond => ⟨first, second, _, rfl, hfirst, hsecond⟩
  | .arithmetic _ [], _, _, _, _ => ends_throw _
  | .arithmetic _ [_], _, _, _, _ => ends_throw _
  | .arithmetic _ (_ :: _ :: _ :: _), _, _, _, _ => ends_throw _
  | .concatenation [left, right], _, _, _, hstands =>
    two_trace (expression_traces left hstands) (expression_traces right)
      fun first second hfirst hsecond => ⟨first, second, rfl, hfirst, hsecond⟩
  | .concatenation [], _, _, _, _ => ends_throw _
  | .concatenation [_], _, _, _, _ => ends_throw _
  | .concatenation (_ :: _ :: _ :: _), _, _, _, _ => ends_throw _
  | .unary _ operand, _, _, _, hstands =>
    one_traces (expression_traces operand hstands) fun rendered h => ⟨rendered, rfl, h⟩
  | .grouped inner, _, _, _, hstands => expression_traces inner hstands
  | .call _ _ _ _ [], _, _, _, hstands =>
    call_traces hstands (fun _ h => by cases h) (expressions_trace [])
  | .call _ _ _ _ [argument], _, _, _, hstands =>
    call_traces hstands
      (fun _ h => by
        cases h
        exact expression_traces argument)
      (expressions_trace [argument])
  | .call _ _ _ _ (first :: second :: rest), _, _, _, hstands =>
    call_traces hstands (fun _ h => by cases h) (expressions_trace (first :: second :: rest))
  | .simpleCase operand whens otherwise, _, _, _, hstands =>
    three_trace (expression_traces operand hstands) (simpleWhens_trace whens)
      (optional_traces otherwise) fun rendered branches default hoperand hwhens hotherwise =>
        ⟨rendered, branches, default, _, rfl, hoperand, hwhens, hotherwise⟩
  | .searchedCase whens otherwise, _, _, _, hstands =>
    two_trace (searchedWhens_trace whens hstands) (optional_traces otherwise)
      fun branches default hwhens hotherwise =>
        ⟨branches, default, _, rfl, hwhens, hotherwise⟩
  | .subquery nested, _, _, _, hstands =>
    one_traces (query_traces nested true hstands) fun select h => ⟨select, _, rfl, h⟩

theorem expressions_trace : ∀ (written : List Phrase.Expression) {bulk : Bool}
    {visible : List FromElement} {before : Context}, before.Stands schema bulk visible →
      Tracing bulk visible (Phrase.expressionsTrace bulk visible written) schema before
        (expressions written)
  | [], _, _, _, hstands => ends_pure ⟨hstands, rfl⟩
  | first :: rest, _, _, _, hstands =>
    two_trace (expression_traces first hstands) (expressions_trace rest)
      fun node others hnode hothers => ⟨node, others, rfl, hnode, hothers⟩

theorem optional_traces : ∀ (written : Option Phrase.Expression) {bulk : Bool}
    {visible : List FromElement} {before : Context}, before.Stands schema bulk visible →
      Tracing bulk visible (Phrase.optionalTraces bulk visible written) schema before
        (optional written)
  | none, _, _, _, hstands => ends_pure ⟨hstands, rfl⟩
  | some written, _, _, _, hstands =>
    one_traces (expression_traces written hstands) fun rendered h => ⟨rendered, rfl, h⟩

theorem simpleWhens_trace : ∀ (written : List Phrase.SimpleWhen) {bulk : Bool}
    {visible : List FromElement} {before : Context}, before.Stands schema bulk visible →
      Tracing bulk visible (Phrase.simpleWhensTrace bulk visible written) schema before
        (simpleWhens written)
  | [], _, _, _, hstands => ends_pure ⟨hstands, rfl⟩
  | .mk value result :: rest, _, _, _, hstands =>
    simpleWhens_trace_cons (expression_traces value hstands) (expression_traces result)
      (simpleWhens_trace rest)

theorem searchedWhens_trace : ∀ (written : List Phrase.SearchedWhen) {bulk : Bool}
    {visible : List FromElement} {before : Context}, before.Stands schema bulk visible →
      Tracing bulk visible (Phrase.searchedWhensTrace bulk visible written) schema before
        (searchedWhens written)
  | [], _, _, _, hstands => ends_pure ⟨hstands, rfl⟩
  | .mk condition result :: rest, _, _, _, hstands =>
    searchedWhens_trace_cons (predicate_traces condition hstands) (expression_traces result)
      (searchedWhens_trace rest)

theorem predicate_traces : ∀ (written : Phrase.Predicate) {bulk : Bool}
    {visible : List FromElement} {before : Context}, before.Stands schema bulk visible →
      Tracing bulk visible (written.Traces bulk visible) schema before (predicate written)
  | .and left right, _, _, _, hstands =>
    two_trace (predicate_traces left hstands) (predicate_traces right)
      fun first second hfirst hsecond => ⟨first, second, rfl, hfirst, hsecond⟩
  | .or left right, _, _, _, hstands =>
    two_trace (predicate_traces left hstands) (predicate_traces right)
      fun first second hfirst hsecond => ⟨first, second, rfl, hfirst, hsecond⟩
  | .not inner, _, _, _, hstands =>
    one_traces (predicate_traces inner hstands) fun rendered h => ⟨rendered, rfl, h⟩
  | .grouped inner, _, _, _, hstands =>
    one_traces (predicate_traces inner hstands) fun rendered h => ⟨rendered, rfl, h⟩
  | .comparison _ left right, _, _, _, hstands =>
    two_trace (expression_traces left hstands) (expression_traces right)
      fun first second hfirst hsecond => ⟨first, second, rfl, hfirst, hsecond⟩
  | .between tested lower upper _, _, _, _, hstands =>
    three_trace (expression_traces tested hstands) (expression_traces lower)
      (expression_traces upper) fun value first second hvalue hfirst hsecond =>
        ⟨value, first, second, rfl, hvalue, hfirst, hsecond⟩
  | .like matched pattern escape _, _, _, _, hstands =>
    three_trace (expression_traces matched hstands) (expression_traces pattern)
      (optional_traces escape) fun value shape mark hvalue hshape hmark =>
        ⟨value, shape, mark, rfl, hvalue, hshape, hmark⟩
  | .inList tested items _, _, _, _, hstands =>
    two_trace (expression_traces tested hstands) (expressions_trace items)
      fun value rendered hvalue hrendered => ⟨value, rendered, rfl, hvalue, hrendered⟩
  | .inSubquery tested operand _, _, _, _, hstands => by
    cases operand with
    | subquery nested =>
      exact two_trace (expression_traces tested hstands) (query_traces nested true)
        fun value select hvalue hselect => ⟨value, select, _, rfl, hvalue, hselect⟩
    | _ => exact ends_bind (expression_traces tested hstands) fun _ _ _ => ends_throw _
  | .isNull tested _, _, _, _, hstands =>
    one_traces (expression_traces tested hstands) fun value h => ⟨value, rfl, h⟩
  | .isEmpty collection _, _, _, _, hstands => isEmpty_traces (expression_traces collection hstands)
  | .memberOf element collection _, _, _, _, hstands =>
    memberOf_traces (expression_traces element hstands) (expression_traces collection)
  | .existence operand _, _, _, _, hstands => by
    cases operand with
    | subquery nested =>
      exact one_traces (query_traces nested true hstands) fun select h => ⟨select, _, rfl, h⟩
    | _ => exact ends_throw _

theorem restriction_traces : ∀ (written : Option Phrase.Predicate) {bulk : Bool}
    {visible : List FromElement} {before : Context}, before.Stands schema bulk visible →
      Tracing bulk visible (Phrase.restrictionTraces bulk visible written) schema before
        (restriction written)
  | none, _, _, _, hstands => ends_pure ⟨hstands, rfl⟩
  | some written, _, _, _, hstands =>
    one_traces (predicate_traces written hstands) fun rendered h => ⟨rendered, rfl, h⟩

theorem selectExpression_traces : ∀ (written : Phrase.SelectExpression)
    {visible : List FromElement} {before : Context}, before.Stands schema false visible →
      Tracing false visible (written.Traces visible) schema before (selectExpression written)
  | .instantiation _ items, _, _, hstands => instantiation_traces (arguments_trace items hstands)
  | .object name, _, _, hstands => object_traces hstands name
  | .expression written, _, _, hstands => expression_traces written hstands

theorem arguments_trace : ∀ (written : List Phrase.SelectItem) {visible : List FromElement}
    {before : Context}, before.Stands schema false visible →
      Tracing false visible (Phrase.argumentsTrace visible written) schema before
        (arguments written)
  | [], _, _, hstands => ends_pure ⟨hstands, rfl⟩
  | .mk written _ :: rest, _, _, hstands =>
    two_trace (selectExpression_traces written hstands) (arguments_trace rest)
      fun value others hvalue hothers => ⟨value, others, rfl, hvalue, hothers⟩

theorem selections_trace : ∀ (written : List Phrase.SelectItem) (position : Nat)
    {visible : List FromElement} {before : Context}, before.Stands schema false visible →
      Tracing false visible (Phrase.selectionsTrace visible written) schema before
        (selections written position)
  | [], _, _, _, hstands => ends_pure ⟨hstands, rfl⟩
  | .mk written _ :: rest, position, _, _, hstands =>
    selections_trace_cons (selectExpression_traces written hstands)
      (selections_trace rest (position + 1))

theorem selectClause_traces : ∀ (written : Option Phrase.SelectClause)
    {visible : List FromElement} {before : Context}, before.Stands schema false visible →
      Tracing false visible (fun value => Phrase.clauseTraces visible written value.2) schema
        before (selectClause written)
  | none, _, _, hstands =>
    ends_bind (keeps_stands hstands
      (implicitSelection_moves (keepsVariables schema) variablesSelecting)
      (ends_mono (implicitSelection_ends hstands.sound) fun _ _ h => h.1.sound))
      fun _ _ h => ends_pure ⟨h, trivial⟩
  | some (.mk _ items), _, _, hstands =>
    one_traces (selections_trace items 0 hstands) fun _ h => h

theorem join_traces : ∀ (written : Phrase.Join) {visible : List FromElement} {before : Context}
    {id : SpaceId}, before.levels.Last id → before.Stands schema false visible →
      JoinTracing visible written schema before (join id written)
  | .cross written, _, _, _, hlast, _ => cross_traces hlast written
  | .collection path alias?, _, _, _, hlast, _ => member_traces hlast path alias?
  | .qualified type fetch target alias? none, _, _, _, hlast, hstands =>
    qualified_traces hlast hstands type fetch target alias? none fun _ h => by cases h
  | .qualified type fetch target alias? (some written), _, _, _, hlast, hstands =>
    qualified_traces hlast hstands type fetch target alias? (some written) fun _ h => by
      cases h
      exact predicate_traces written

theorem joins_trace : ∀ (written : List Phrase.Join) {visible : List FromElement}
    {before : Context} {id : SpaceId}, before.levels.Last id →
      before.Stands schema false visible →
      JoinsTracing visible written schema before (joins id written)
  | [], _, _, _, hlast, hstands => joins_trace_nil hlast hstands
  | first :: rest, _, _, _, hlast, hstands =>
    joins_trace_cons hlast hstands (join_traces first hlast hstands) (joins_trace rest)

theorem spaces_trace : ∀ (written : List Phrase.Space) {visible : List FromElement}
    {before : Context}, before.levels ≠ [] → before.Stands schema false visible →
      SpacesTracing visible written schema before (spaces written)
  | [], _, _, hinside, hstands => spaces_trace_nil hinside hstands
  | .mk _ hanging :: rest, _, _, _, hstands =>
    spaces_trace_cons (space_traces hstands fun _ _ _ hlast hbetween =>
      joins_trace hanging hlast hbetween) (spaces_trace rest)

theorem sortItems_trace : ∀ (written : List Phrase.SortItem) {visible : List FromElement}
    {before : Context}, before.Stands schema false visible →
      Tracing false visible (Phrase.sortItemsTrace visible written) schema before
        (sortItems written)
  | [], _, _, hstands => ends_pure ⟨hstands, rfl⟩
  | .mk written _ _ :: rest, _, _, hstands =>
    sortItems_trace_cons hstands (expression_traces written hstands) (sortItems_trace rest)

theorem order_traces : ∀ (written : Option (List Phrase.SortItem)) {visible : List FromElement}
    {before : Context}, before.Stands schema false visible →
      Tracing false visible (Phrase.orderTraces visible written) schema before (order written)
  | none, _, _, hstands => ends_pure ⟨hstands, rfl⟩
  | some written, _, _, hstands =>
    one_traces (sortItems_trace written hstands) fun rendered h => ⟨rendered, rfl, h⟩

theorem query_traces : ∀ (written : Phrase.Query) (nested : Bool) {bulk : Bool}
    {visible : List FromElement} {before : Context}, before.Stands schema bulk visible →
      Tracing bulk visible (written.Traces visible) schema before (query written nested)
  | .mk select written condition ordering limit offset, nested, _, _, _, hstands =>
    ends_both (keeps_stands hstands
      (query_moves (keepsVariables schema) _ nested (Phrase.Query.meets treating_always _ nested))
      (ends_mono (query_builds _ nested (fun h => h.elim) hstands.sound)
        fun _ _ h => h.1.sound))
      (clauses_trace hstands (spaces_trace written) (selectClause_traces select)
        (restriction_traces condition) (order_traces ordering) (optional_traces limit)
        (optional_traces offset))

end

end EntityQuery.Interpretation.Step

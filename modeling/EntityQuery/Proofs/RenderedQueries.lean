import EntityQuery.Proofs.RenderedClauses

/-!
# What queries are rendered as

Every step of a query renders the phrase that it was written for, and under the strict language it
does the same exactly for compliant phrases whose values of joins are values of maps. The proof
follows the recursion of the steps on the phrase, one case for each form. The restriction of a join
is found at the join again, since later paths only add joins at the end of a space.

* `Step.expression_renders`, `Step.predicate_renders`, `Step.query_renders`.
-/

namespace EntityQuery.Interpretation.Step

open Resolved (Join)

variable {schema : Schema} {before : Context}

/-! ## Steps put together -/

section

variable {α β γ δ : Type} {first : Step α} {second : Step β} {third : Step γ}
  {compliant one two three : Prop} {renders : Bool → δ → Prop} {rendersFirst : Bool → α → Prop}
  {rendersSecond : Bool → β → Prop} {rendersThird : Bool → γ → Prop}

/-- A tree over one part. -/
theorem one_renders {combine : α → δ} (hfirst : Rendering one rendersFirst schema before first)
    (hcompliant : compliant ↔ one)
    (hrenders : ∀ maps value, renders maps (combine value) ↔ rendersFirst maps value) :
    Rendering compliant renders schema before (do
      let value ← first
      return combine value) := by
  refine audit_bind hfirst ?_
  rintro fine value after - ⟨hready, hvalue⟩
  exact audit_pure ⟨hready, hvalue.imp hcompliant (fun maps => hrenders maps value) (by simp)⟩

/-- A tree over two parts, the first of which is built before the second. -/
theorem two_render {combine : α → β → δ}
    (hfirst : Rendering one rendersFirst schema before first)
    (hsecond : ∀ {between : Context}, between.Ready schema →
      Rendering two rendersSecond schema between second)
    (hcompliant : compliant ↔ one ∧ two)
    (hrenders : ∀ maps value other, renders maps (combine value other)
      ↔ rendersFirst maps value ∧ rendersSecond maps other) :
    Rendering compliant renders schema before (do
      let value ← first
      let other ← second
      return combine value other) := by
  refine audit_bind hfirst ?_
  rintro fine value between - ⟨hready, hvalue⟩
  refine audit_bind (hsecond hready) ?_
  rintro fine' other after - ⟨hready', hother⟩
  refine audit_pure ⟨hready', ?_⟩
  exact (hvalue.and hother hcompliant fun maps => hrenders maps value other).imp Iff.rfl
    (fun _ => Iff.rfl) (by simp)

/-- A tree over three parts. -/
theorem three_render {combine : α → β → γ → δ}
    (hfirst : Rendering one rendersFirst schema before first)
    (hsecond : ∀ {between : Context}, between.Ready schema →
      Rendering two rendersSecond schema between second)
    (hthird : ∀ {between : Context}, between.Ready schema →
      Rendering three rendersThird schema between third)
    (hcompliant : compliant ↔ one ∧ two ∧ three)
    (hrenders : ∀ maps value other last, renders maps (combine value other last)
      ↔ rendersFirst maps value ∧ rendersSecond maps other ∧ rendersThird maps last) :
    Rendering compliant renders schema before (do
      let value ← first
      let other ← second
      let last ← third
      return combine value other last) := by
  refine audit_bind hfirst ?_
  rintro fine value between - ⟨hready, hvalue⟩
  refine audit_bind (hsecond hready) ?_
  rintro fine' other between' - ⟨hready', hother⟩
  refine audit_bind (hthird hready') ?_
  rintro fine'' last after - ⟨hready'', hlast⟩
  refine audit_pure ⟨hready'', ?_⟩
  have hrest := hother.and hlast Iff.rfl fun _ => Iff.rfl
  exact (hvalue.and hrest hcompliant fun maps => hrenders maps value other last).imp Iff.rfl
    (fun _ => Iff.rfl) (by simp)

end

/-- An operand that has to be a collection is kept. -/
theorem pluralOperand_audit {form : PluralForm} {operand : Resolved.Expression} :
    Audit schema before (pluralOperand form operand) fun fine collection after =>
      fine = True ∧ before = after ∧ operand = .reference collection :=
  audit_free (pluralOperand_stays form operand) <|
    pluralOperand_ends fun _ hform _ => ⟨rfl, rfl, hform⟩

/-! ## Forms with checks of their own -/

/-- The index of a collection element is rendered in the source of the path. -/
theorem indexed_renders {index : Phrase.Expression} (hready : before.Ready schema)
    (hindex : Rendering (index.Meets (Phrase.compliance schema))
      (fun maps => index.Renders schema maps) schema before (expression index))
    (base : DottedName) (remainder : Option DottedName) :
    Rendering ((Phrase.Expression.indexed base index remainder).Meets (Phrase.compliance schema))
      (fun maps => (Phrase.Expression.indexed base index remainder).Renders schema maps) schema
      before (expression (.indexed base index remainder)) := by
  refine audit_bind hindex ?_
  rintro fine value between hrun ⟨hbetween, hvalue⟩
  obtain ⟨hadvances, hholds⟩ :=
    expression_builds index (fun h => h.elim) hready.sound value between hrun
  refine audit_free (indexed_moves (anyMotion schema) base value remainder) ?_
  refine ends_mono (ends_and (indexed_builds hadvances hholds base remainder)
    (indexed_indices base value remainder)) ?_
  rintro node after ⟨⟨hlater, -⟩, hindices⟩
  refine ⟨hlater.ready hready, hvalue.imp Iff.rfl (fun maps => ?_) (by simp)⟩
  simp only [Phrase.Expression.Renders, hindices]
  constructor
  · rintro ⟨rendered, hrendered, h⟩
    cases hrendered
    exact h
  · exact fun h => ⟨value, rfl, h⟩

theorem collectionFunction_form (function : CollectionFunction) (argument : Resolved.Expression) :
    Ends schema before (collectionFunction function argument) fun value after =>
      before = after ∧ ∃ type?, value = .collectionFunction function argument type? := by
  unfold collectionFunction
  split
  · split
    · refine ends_bind (ends_ofExcept (Q := fun _ after => before = after) fun _ _ => rfl) ?_
      rintro type? _ rfl
      exact ends_pure ⟨rfl, type?, rfl⟩
    · exact ends_throw _
  · exact ends_throw _

/-- The argument of an index is a path that ends in the join. -/
theorem indexOfJoin_form (argument : Phrase.Expression) :
    Ends schema before (indexOfJoin argument) fun value _ =>
      ∃ dotted join type?, argument = .path dotted
        ∧ value = .collectionFunction .index (.element join) type? := by
  unfold indexOfJoin
  split
  · refine ends_bind (Q := fun _ _ => True) (fun _ _ _ => trivial) fun join _ _ => ?_
    split
    · exact ends_pure ⟨_, join, _, rfl, rfl⟩
    · exact ends_throw _
  · exact ends_throw _

theorem call_renders {name : String} {generic distinct star : Bool}
    {arguments : List Phrase.Expression} (hready : before.Ready schema)
    (hone : ∀ argument, arguments = [argument] → ∀ {between : Context}, between.Ready schema →
      Rendering (argument.Meets (Phrase.compliance schema))
        (fun maps => argument.Renders schema maps) schema between (expression argument))
    (hall : ∀ {between : Context}, between.Ready schema →
      Rendering (Phrase.expressionsMeet (Phrase.compliance schema) arguments)
        (fun maps => Phrase.expressionsRender schema maps arguments) schema between
        (expressions arguments)) :
    Rendering ((Phrase.Expression.call name generic distinct star arguments).Meets
        (Phrase.compliance schema))
      (fun maps => (Phrase.Expression.call name generic distinct star arguments).Renders schema
        maps) schema before (expression (.call name generic distinct star arguments)) := by
  simp only [expression, Phrase.Expression.Meets, Phrase.Expression.Renders, Phrase.CompliantCall]
  generalize (if generic = true then none else CollectionFunction.ofName? name) = found
  cases found with
  | some function =>
    refine audit_bind (announceCollectionFunction_audit hready function) ?_
    rintro fine _ between - ⟨hbetween, hfine⟩
    split
    · rename_i argument
      split
      · rename_i hindex
        refine audit_free (indexOfJoin_moves (anyMotion schema) argument) ?_
        refine ends_mono (ends_and (indexOfJoin_builds hbetween.sound argument)
          (indexOfJoin_form argument)) ?_
        rintro value after ⟨⟨hlater, -⟩, dotted, join, type?, rfl, rfl⟩
        refine ⟨hlater.ready hbetween, .of_form (fun maps => ?_) ?_⟩
        · subst hindex
          exact ⟨_, _, rfl, _, _, rfl, trivial, rfl⟩
        · simp [hfine, Phrase.expressionsMeet, Phrase.Expression.Meets]
      · refine audit_bind (hone argument rfl hbetween) ?_
        rintro fine' value after - ⟨hafter, hvalue⟩
        refine audit_free (collectionFunction_stays function value) ?_
        refine ends_mono (collectionFunction_form function value) ?_
        rintro node _ ⟨rfl, type?, rfl⟩
        refine ⟨hafter, ?_⟩
        have hannounced : Rendered (function.isExtension = false) (fun _ => True) fine :=
          .of_form (fun _ => trivial) hfine
        refine (hannounced.and hvalue Iff.rfl fun _ => Iff.rfl).imp ?_ (fun maps => ?_) (by simp)
        · simp [Phrase.expressionsMeet]
        · simp [Phrase.expressionsRender]
    · exact audit_throw _
  | none =>
    refine audit_bind (announceCall_audit hready name generic) ?_
    rintro fine _ between - ⟨hbetween, hfine⟩
    refine audit_bind (hall hbetween) ?_
    rintro fine' values after - ⟨hafter, hvalues⟩
    refine audit_pure ⟨hafter, ?_⟩
    have hannounced : Rendered (generic = true ∨ Catalogue.isStandardFunction name = true)
        (fun _ => True) fine :=
      .of_form (fun _ => trivial) hfine
    refine (hannounced.and hvalues Iff.rfl fun _ => Iff.rfl).imp Iff.rfl (fun maps => ?_) (by simp)
    simp [call]

/-- The left operand of a predicate on collections is kept as a collection. -/
theorem isEmpty_renders {written : Phrase.Expression} {negated : Bool}
    (h : Rendering (written.Meets (Phrase.compliance schema))
      (fun maps => written.Renders schema maps) schema before (expression written)) :
    Rendering ((Phrase.Predicate.isEmpty written negated).Meets (Phrase.compliance schema))
      (fun maps => (Phrase.Predicate.isEmpty written negated).Renders schema maps) schema before
      (predicate (.isEmpty written negated)) := by
  refine audit_bind h ?_
  rintro fine value between - ⟨hready, hvalue⟩
  refine audit_bind pluralOperand_audit ?_
  rintro _ collection after - ⟨rfl, rfl, rfl⟩
  refine audit_pure ⟨hready, hvalue.imp Iff.rfl (fun maps => ?_) (by simp)⟩
  simp [Phrase.Predicate.Renders]

theorem memberOf_renders {element collection : Phrase.Expression} {negated : Bool}
    (helement : Rendering (element.Meets (Phrase.compliance schema))
      (fun maps => element.Renders schema maps) schema before (expression element))
    (hcollection : ∀ {between : Context}, between.Ready schema →
      Rendering (collection.Meets (Phrase.compliance schema))
        (fun maps => collection.Renders schema maps) schema between (expression collection)) :
    Rendering ((Phrase.Predicate.memberOf element collection negated).Meets
        (Phrase.compliance schema))
      (fun maps => (Phrase.Predicate.memberOf element collection negated).Renders schema maps)
      schema before (predicate (.memberOf element collection negated)) := by
  refine audit_bind helement ?_
  rintro fine value between - ⟨hready, hvalue⟩
  refine audit_bind pluralOperand_audit ?_
  rintro _ plural after - ⟨rfl, rfl, rfl⟩
  refine audit_bind (hcollection hready) ?_
  rintro fine' other after - ⟨hready', hother⟩
  refine audit_pure ⟨hready', ?_⟩
  refine (hvalue.and hother Iff.rfl fun _ => Iff.rfl).imp Iff.rfl (fun maps => ?_) (by simp)
  simp [Phrase.Predicate.Renders]

theorem inSubquery_renders {tested : Phrase.Expression} {nested : Phrase.Query} {negated : Bool}
    (htested : Rendering (tested.Meets (Phrase.compliance schema))
      (fun maps => tested.Renders schema maps) schema before (expression tested))
    (hnested : ∀ {between : Context}, between.Ready schema →
      Rendering (nested.Meets (Phrase.compliance schema) true)
        (fun maps => nested.Renders schema maps true) schema between (query nested true)) :
    Rendering ((Phrase.Predicate.inSubquery tested (.subquery nested) negated).Meets
        (Phrase.compliance schema))
      (fun maps => (Phrase.Predicate.inSubquery tested (.subquery nested) negated).Renders schema
        maps) schema before (predicate (.inSubquery tested (.subquery nested) negated)) :=
  two_render htested hnested Iff.rfl fun maps value select => by
    simp [Phrase.Predicate.Renders, Resolved.Subquery.ofSelect]

theorem simpleWhens_render_cons {value result : Phrase.Expression} {rest : List Phrase.SimpleWhen}
    (hvalue : RendersExpression schema before value)
    (hresult : ∀ {between : Context}, between.Ready schema →
      RendersExpression schema between result)
    (hrest : ∀ {between : Context}, between.Ready schema →
      Rendering (Phrase.simpleWhensMeet (Phrase.compliance schema) rest)
        (fun maps => Phrase.simpleWhensRender schema maps rest) schema between
        (simpleWhens rest)) :
    Rendering (Phrase.simpleWhensMeet (Phrase.compliance schema) (.mk value result :: rest))
      (fun maps => Phrase.simpleWhensRender schema maps (.mk value result :: rest)) schema before
      (simpleWhens (.mk value result :: rest)) := by
  have hfirst : Rendering ((Phrase.SimpleWhen.mk value result).Meets (Phrase.compliance schema))
      (fun maps node => ∃ compared found, node = Resolved.SimpleWhen.mk compared found
        ∧ value.Renders schema maps compared ∧ result.Renders schema maps found) schema before
      (simpleWhen (.mk value result)) :=
    two_render hvalue hresult Iff.rfl fun maps compared found => by simp
  refine two_render hfirst hrest Iff.rfl fun maps node nodes => ?_
  constructor
  · rintro ⟨compared, found, others, hform, hcompared, hfound, hothers⟩
    cases hform
    exact ⟨⟨compared, found, rfl, hcompared, hfound⟩, hothers⟩
  · rintro ⟨⟨compared, found, rfl, hcompared, hfound⟩, hothers⟩
    exact ⟨compared, found, nodes, rfl, hcompared, hfound, hothers⟩

theorem searchedWhens_render_cons {condition : Phrase.Predicate} {result : Phrase.Expression}
    {rest : List Phrase.SearchedWhen} (hcondition : RendersPredicate schema before condition)
    (hresult : ∀ {between : Context}, between.Ready schema →
      RendersExpression schema between result)
    (hrest : ∀ {between : Context}, between.Ready schema →
      Rendering (Phrase.searchedWhensMeet (Phrase.compliance schema) rest)
        (fun maps => Phrase.searchedWhensRender schema maps rest) schema between
        (searchedWhens rest)) :
    Rendering (Phrase.searchedWhensMeet (Phrase.compliance schema) (.mk condition result :: rest))
      (fun maps => Phrase.searchedWhensRender schema maps (.mk condition result :: rest)) schema
      before (searchedWhens (.mk condition result :: rest)) := by
  have hfirst : Rendering ((Phrase.SearchedWhen.mk condition result).Meets
        (Phrase.compliance schema))
      (fun maps node => ∃ tested found, node = Resolved.SearchedWhen.mk tested found
        ∧ condition.Renders schema maps tested ∧ result.Renders schema maps found) schema before
      (searchedWhen (.mk condition result)) :=
    two_render hcondition hresult Iff.rfl fun maps tested found => by simp
  refine two_render hfirst hrest Iff.rfl fun maps node nodes => ?_
  constructor
  · rintro ⟨tested, found, others, hform, htested, hfound, hothers⟩
    cases hform
    exact ⟨⟨tested, found, rfl, htested, hfound⟩, hothers⟩
  · rintro ⟨⟨tested, found, rfl, htested, hfound⟩, hothers⟩
    exact ⟨tested, found, nodes, rfl, htested, hfound, hothers⟩

theorem instantiation_renders {target : Phrase.Target} {items : List Phrase.SelectItem}
    (hitems : Rendering (Phrase.argumentsMeet (Phrase.compliance schema) items)
      (fun maps => Phrase.argumentsRender schema maps items) schema before (arguments items)) :
    Rendering ((Phrase.SelectExpression.instantiation target items).Meets
        (Phrase.compliance schema))
      (fun maps => (Phrase.SelectExpression.instantiation target items).Renders schema maps) schema
      before (selectExpression (.instantiation target items)) := by
  refine audit_bind (audit_free (Q := fun fine _ after => fine = True ∧ before = after)
    (instantiationTarget_stays target items) (instantiationTarget_ends fun _ => ⟨rfl, rfl⟩)) ?_
  rintro _ made between - ⟨rfl, rfl⟩
  refine audit_bind hitems ?_
  rintro fine values after - ⟨hready, hvalues⟩
  refine audit_pure ⟨hready, hvalues.imp Iff.rfl (fun maps => ?_) (by simp)⟩
  simp [Phrase.SelectExpression.Renders]

theorem object_renders (hready : before.Ready schema) (name : String) :
    Rendering ((Phrase.SelectExpression.object name).Meets (Phrase.compliance schema))
      (fun maps => (Phrase.SelectExpression.object name).Renders schema maps) schema before
      (selectExpression (.object name)) :=
  free_renders trivial
    (stays_then (R := Eq) (fun _ => rfl) (identificationVariable_stays name)
      fun _ _ => stays_pure _)
    (ends_bind (identificationVariable_finds hready.sound name)
      fun _ _ h => ends_pure (h.1.ready hready))
    (ends_bind (Q := fun _ _ => True) (fun _ _ _ => trivial)
      fun element _ _ => ends_pure fun _ => ⟨element, rfl⟩)

/-! ## Selections and orders -/

theorem bindSelection_audit (hready : before.Ready schema) (position : Nat)
    (selection : Resolved.Selection) :
    Audit schema before (bindSelection position selection) fun fine _ after =>
      fine = True ∧ after.Ready schema :=
  audit_free
    (bindSelection_moves (anyMotion schema) (anyMotion schema).selecting position selection)
    (ends_bindSelection fun _ hbind => ⟨rfl, (hready.sound.selects hbind).ready hready⟩)

theorem selections_render_cons {written : Phrase.SelectExpression} {alias? : Option String}
    {rest : List Phrase.SelectItem} {position : Nat} 
    (hfirst : Rendering (written.Meets (Phrase.compliance schema))
      (fun maps => written.Renders schema maps) schema before (selectExpression written))
    (hrest : ∀ {between : Context}, between.Ready schema →
      Rendering (Phrase.selectionsMeet (Phrase.compliance schema) rest)
        (fun maps => Phrase.selectionsRender schema maps rest) schema between
        (selections rest (position + 1))) :
    Rendering (Phrase.selectionsMeet (Phrase.compliance schema) (.mk written alias? :: rest))
      (fun maps => Phrase.selectionsRender schema maps (.mk written alias? :: rest)) schema before
      (selections (.mk written alias? :: rest) position) := by
  refine audit_bind (checkVariable_audit alias?) ?_
  rintro fine _ between - ⟨hfine, rfl⟩
  refine audit_bind hfirst ?_
  rintro fine' value first - ⟨hready, hvalue⟩
  refine audit_bind (bindSelection_audit hready position _) ?_
  rintro _ _ second - ⟨rfl, hsecond⟩
  refine audit_bind (hrest hsecond) ?_
  rintro fine'' values after - ⟨hafter, hvalues⟩
  refine audit_pure ⟨hafter, ?_⟩
  have hhead : Rendered (Phrase.NotReserved alias?) (fun _ => True) fine :=
    .of_form (fun _ => trivial) hfine
  have hall := hhead.and (hvalue.and hvalues Iff.rfl fun _ => Iff.rfl) Iff.rfl fun _ => Iff.rfl
  refine hall.imp Iff.rfl (fun maps => ?_) (by simp)
  simp [Phrase.selectionsRender]

/-- The strict language has no implicit selections. -/
theorem implicitSelection_audit (hready : before.Ready schema) :
    Audit schema before implicitSelection fun fine selections after =>
      fine = False ∧ after.Ready schema ∧ ∃ root, selections = [.mk (.element root) none] := by
  refine audit_get_bind ?_
  split
  · exact audit_throw _
  rename_i root hroot
  have hadvised := advise_advances hready.sound .implicitSelect
    s!"Use of HQL implicit select clause; select {root.aliasName} explicitly"
  refine audit_bind (audit_modify (Q := fun fine _ after => fine = True ∧ after.Ready schema)
    ⟨rfl, hadvised.ready hready⟩) ?_
  rintro _ _ advised - ⟨rfl, hadvisedReady⟩
  refine audit_bind (audit_comply (Q := fun fine _ last => fine = (true = false) ∧ advised = last)
    ⟨rfl, rfl⟩) ?_
  rintro _ _ last - ⟨rfl, rfl⟩
  refine audit_bind (bindSelection_audit hadvisedReady 0 _) ?_
  rintro _ _ after - ⟨rfl, hafter⟩
  exact audit_pure ⟨by simp, hafter, root, rfl⟩

/-- A query has to have a select clause. -/
def clauseComplies (schema : Schema) (select : Option Phrase.SelectClause) : Prop :=
  select.isSome = true ∧ Phrase.clauseMeets (Phrase.compliance schema) select

theorem sortItem_renders {written : Phrase.Expression} {collation ordering : Option String}
    (hready : before.Ready schema)
    (hwritten : Rendering (written.Meets (Phrase.compliance schema))
      (fun maps => written.Renders schema maps) schema before (expression written)) :
    Rendering (written.Meets (Phrase.compliance schema))
      (fun maps item => ∃ value order, item = .mk value collation order
        ∧ ((∃ path, written = .path path) ∧ value.isVariable = true
          ∨ written.Renders schema maps value)) schema before
      (sortItem (.mk written collation ordering)) := by
  rw [sortItem]
  have hfinish : ∀ {context : Context} {value : Resolved.Expression} {fine : Prop},
      context.Ready schema →
      Rendered (written.Meets (Phrase.compliance schema))
        (fun maps => (∃ path, written = .path path) ∧ value.isVariable = true
          ∨ written.Renders schema maps value) fine →
      Audit schema context (do
        let order ← ofExcept (sortOrder ordering)
        return Resolved.SortItem.mk value collation order) fun fine' item after =>
          after.Ready schema ∧ Rendered (written.Meets (Phrase.compliance schema))
            (fun maps => ∃ value order, item = .mk value collation order
              ∧ ((∃ path, written = .path path) ∧ value.isVariable = true
                ∨ written.Renders schema maps value)) (fine ∧ fine') := by
    intro context value fine hcontext hvalue
    refine audit_bind (audit_free (Q := fun fine _ after => fine = True ∧ context = after)
      (sortOrder_stays ordering) (ends_ofExcept fun _ _ => ⟨rfl, rfl⟩)) ?_
    rintro _ order after - ⟨rfl, rfl⟩
    refine audit_pure ⟨hcontext, hvalue.imp Iff.rfl (fun maps => ?_) (by simp)⟩
    simp
  refine audit_get_bind ?_
  dsimp only
  split
  · rename_i value hvariable
    obtain ⟨path, hpath⟩ : ∃ path, written = .path path := by
      cases written with
      | path path => exact ⟨path, rfl⟩
      | _ => cases hvariable
    have hvalue : value.isVariable = true := by
      obtain ⟨result, -, rfl⟩ := resultVariable?_some hvariable
      rfl
    have hrendered : Rendered (written.Meets (Phrase.compliance schema))
        (fun maps => (∃ path, written = .path path) ∧ value.isVariable = true
          ∨ written.Renders schema maps value) True :=
      .of_form (fun _ => .inl ⟨⟨path, hpath⟩, hvalue⟩) (by simp [hpath, Phrase.Expression.Meets])
    refine audit_mono (hfinish hready hrendered) fun fine' item after h => ?_
    exact ⟨h.1, h.2.imp Iff.rfl (fun _ => Iff.rfl) (by simp)⟩
  · refine audit_bind hwritten ?_
    rintro fine value after - ⟨hafter, hvalue⟩
    refine hfinish hafter ⟨.inr hvalue.form, hvalue.fine.trans (and_congr_right fun _ => ?_)⟩
    -- What a path is found to mean is no result variable.
    refine (or_iff_right ?_).symm
    rintro ⟨⟨path, rfl⟩, hvariable⟩
    have hplace : value.IsPlace := hvalue.form
    cases value with
    | selection aliasName position type? => exact hplace
    | _ => cases hvariable

theorem sortItems_render_cons {written : Phrase.Expression} {collation ordering : Option String}
    {rest : List Phrase.SortItem} (hready : before.Ready schema)
    (hwritten : RendersExpression schema before written)
    (hrest : ∀ {between : Context}, between.Ready schema →
      Rendering (Phrase.sortItemsMeet (Phrase.compliance schema) rest)
        (fun maps => Phrase.sortItemsRender schema maps rest) schema between (sortItems rest)) :
    Rendering (Phrase.sortItemsMeet (Phrase.compliance schema)
        (.mk written collation ordering :: rest))
      (fun maps => Phrase.sortItemsRender schema maps (.mk written collation ordering :: rest))
      schema before (sortItems (.mk written collation ordering :: rest)) := by
  refine two_render (sortItem_renders hready hwritten) hrest Iff.rfl fun maps item items => ?_
  constructor
  · rintro ⟨value, order, others, hform, hvalue, hothers⟩
    cases hform
    exact ⟨⟨value, order, rfl, hvalue⟩, hothers⟩
  · rintro ⟨⟨value, order, rfl, hvalue⟩, hothers⟩
    exact ⟨value, order, items, rfl, hvalue, hothers⟩

/-! ## Queries -/

section

variable {select : Option Phrase.SelectClause} {written : List Phrase.Space}
  {condition : Option Phrase.Predicate} {ordering : Option (List Phrase.SortItem)}
  {limit offset : Option Phrase.Expression} {nested : Bool}

/-- The clauses behind the from clause are rendered; they add nothing that is seen to the spaces. -/
def ClausesRendering (schema : Schema) (select : Option Phrase.SelectClause)
    (condition : Option Phrase.Predicate) (ordering : Option (List Phrase.SortItem))
    (limit offset : Option Phrase.Expression) (before : Context) : Prop :=
  Audit schema before (clauses select condition ordering limit offset) fun fine value after =>
    SpreadsAcross before after
      ∧ ∃ distinct selections restricted ordered bound skipped,
        (value = fun spaces => .mk spaces distinct selections restricted ordered bound skipped)
        ∧ Rendered (clauseComplies schema select
            ∧ Phrase.restrictionMeets (Phrase.compliance schema) condition
            ∧ Phrase.orderMeets (Phrase.compliance schema) ordering
            ∧ Phrase.optionalMeets (Phrase.compliance schema) limit
            ∧ Phrase.optionalMeets (Phrase.compliance schema) offset)
          (fun maps => Phrase.clauseRenders schema maps select distinct selections
            ∧ Phrase.restrictionRenders schema maps condition restricted
            ∧ Phrase.orderRenders schema maps ordering ordered
            ∧ Phrase.optionalRenders schema maps limit bound
            ∧ Phrase.optionalRenders schema maps offset skipped) fine

theorem clauses_render
    (hselect : Rendering (clauseComplies schema select)
      (fun maps value => Phrase.clauseRenders schema maps select value.1 value.2) schema before
      (selectClause select))
    (hcondition : ∀ {between : Context}, between.Ready schema →
      Rendering (Phrase.restrictionMeets (Phrase.compliance schema) condition)
        (fun maps => Phrase.restrictionRenders schema maps condition) schema between
        (restriction condition))
    (hordering : ∀ {between : Context}, between.Ready schema →
      Rendering (Phrase.orderMeets (Phrase.compliance schema) ordering)
        (fun maps => Phrase.orderRenders schema maps ordering) schema between (order ordering))
    (hlimit : ∀ {between : Context}, between.Ready schema →
      Rendering (Phrase.optionalMeets (Phrase.compliance schema) limit)
        (fun maps => Phrase.optionalRenders schema maps limit) schema between (optional limit))
    (hoffset : ∀ {between : Context}, between.Ready schema →
      Rendering (Phrase.optionalMeets (Phrase.compliance schema) offset)
        (fun maps => Phrase.optionalRenders schema maps offset) schema between (optional offset)) :
    ClausesRendering schema select condition ordering limit offset before := by
  have hclause : Phrase.clauseMeets (treating fun _ => True) select :=
    Phrase.clause_meets treating_always select
  have hselecting : Selecting SpreadsAcross SpreadsAcross :=
    ⟨fun _ _ h => h, (lenientSpread schema).trans, fun _ _ => .refl _⟩
  refine audit_bind (audit_with hselect
    (selectClause_moves (lenientSpread schema) select hselecting hclause).ends) ?_
  rintro fineSelect ⟨distinct, selections⟩ second - ⟨⟨hsecond, hselections⟩, hselected⟩
  refine audit_bind (audit_with (hcondition hsecond)
    (restriction_moves (lenientSpread schema) condition
      (Phrase.restriction_meets treating_always condition)).ends) ?_
  rintro fineCondition restricted third - ⟨⟨hthird, hrestriction⟩, hrestricted⟩
  refine audit_bind (audit_with (hordering hthird)
    (order_moves (lenientSpread schema) ordering
      (Phrase.order_meets treating_always ordering)).ends) ?_
  rintro fineOrder ordered fourth - ⟨⟨hfourth, horder⟩, hordered⟩
  refine audit_bind (audit_with (hlimit hfourth)
    (optional_moves (lenientSpread schema) limit
      (Phrase.optional_meets treating_always limit)).ends) ?_
  rintro fineLimit bound fifth - ⟨⟨hfifth, hbound⟩, hlimited⟩
  refine audit_bind (audit_with (hoffset hfifth)
    (optional_moves (lenientSpread schema) offset
      (Phrase.optional_meets treating_always offset)).ends) ?_
  rintro fineOffset skipped last - ⟨⟨-, hskipped⟩, hoffsetted⟩
  have hlast := hbound.and hskipped Iff.rfl fun _ => Iff.rfl
  have hthree := horder.and hlast Iff.rfl fun _ => Iff.rfl
  have hfour := hrestriction.and hthree Iff.rfl fun _ => Iff.rfl
  have hfive := hselections.and hfour Iff.rfl fun _ => Iff.rfl
  exact audit_pure ⟨(((hselected.trans hrestricted).trans hordered).trans hlimited).trans
    hoffsetted, distinct, selections, restricted, ordered, bound, skipped, rfl,
    hfive.imp Iff.rfl (fun _ => Iff.rfl) (by simp)⟩

/-- A query renders its spaces and then its other clauses. -/
theorem query_clauses_render (hsound : before.Sound (schema.withStrict false) False)
    (hnested : nested = true → before.levels ≠ [])
    (hspaces : ∀ {between : Context}, between.Ready schema →
      (nested = true → 1 < between.levels.length) →
      SpacesRendering nested written schema between (spaces written))
    (hclauses : ∀ {between : Context}, between.Ready schema →
      ClausesRendering schema select condition ordering limit offset between) :
    Audit schema before (query (.mk select written condition ordering limit offset) nested)
      fun fine node _ =>
        Rendered ((Phrase.Query.mk select written condition ordering limit offset).Meets
          (Phrase.compliance schema) nested)
          (fun maps => (Phrase.Query.mk select written condition ordering limit offset).Renders
            schema maps nested node) fine := by
  have hstart : before.openLevel.Ready schema := ⟨hsound.openLevel, List.cons_ne_nil _ _⟩
  have hdepth : nested = true → 1 < before.openLevel.levels.length := fun h =>
    Nat.succ_lt_succ (List.length_pos_of_ne_nil (hnested h))
  rw [query]
  refine audit_bind (audit_comply (Q := fun fine _ last =>
    fine = ((nested && ordering.isSome) = false) ∧ before = last) ⟨rfl, rfl⟩) ?_
  rintro _ _ last - ⟨rfl, rfl⟩
  refine audit_bind (audit_comply (Q := fun fine _ last =>
    fine = ((limit.isSome || offset.isSome) = false) ∧ before = last) ⟨rfl, rfl⟩) ?_
  rintro _ _ last - ⟨rfl, rfl⟩
  refine audit_bind (P := fun fine value _ =>
    Rendered (Phrase.spacesMeet (Phrase.compliance schema) written
        ∧ clauseComplies schema select
        ∧ Phrase.restrictionMeets (Phrase.compliance schema) condition
        ∧ Phrase.orderMeets (Phrase.compliance schema) ordering
        ∧ Phrase.optionalMeets (Phrase.compliance schema) limit
        ∧ Phrase.optionalMeets (Phrase.compliance schema) offset)
      (fun maps => (Phrase.Query.mk select written condition ordering limit offset).Renders
        schema maps nested (value.1 value.2)) fine) (audit_onLevel ?_) ?_
  · refine audit_bind (audit_with (hspaces hstart hdepth)
      (spaces_end written (fun h => h.elim) hsound.openLevel)) ?_
    rintro fineSpaces _ first - ⟨⟨nodes, happends, hnodes⟩, hextends, -⟩
    refine audit_mono (hclauses (hextends.ready hstart)) ?_
    rintro fineClauses _ last
      ⟨hspreads, distinct, selections, restricted, ordered, bound, skipped, rfl, hrendered⟩
      spaces hclose
    obtain ⟨finished, hfinished, hspread⟩ := happends.finished hspreads
    rw [hfinished] at hclose
    cases hclose
    refine hnodes.and hrendered Iff.rfl fun maps => ?_
    rw [← spacesRender_spread hspread]
    constructor
    · rintro ⟨_, _, _, _, _, _, _, hform, h⟩
      cases hform
      exact h
    · exact fun h => ⟨_, _, _, _, _, _, _, rfl, h⟩
  · rintro fine ⟨clauses, spaces⟩ after - hrendered
    have hhead : Rendered ((nested = true → ordering = none) ∧ limit = none ∧ offset = none)
        (fun _ => True) (((nested && ordering.isSome) = false)
          ∧ (limit.isSome || offset.isSome) = false) :=
      .of_form (fun _ => trivial)
        (by cases nested <;> cases ordering <;> cases limit <;> cases offset <;> simp)
    refine audit_pure ((hhead.and hrendered Iff.rfl fun _ => Iff.rfl).imp ?_ (by simp) ?_)
    · simp only [Phrase.Query.Meets, Phrase.CompliantQuery, clauseComplies]
      tauto
    · tauto

end

/-- A query within another one leaves a state to go on from. -/
theorem nested_renders {nested : Phrase.Query} (hready : before.Ready schema)
    (h : Audit schema before (query nested true) fun fine node _ =>
      Rendered (nested.Meets (Phrase.compliance schema) true)
        (fun maps => nested.Renders schema maps true node) fine) :
    Rendering (nested.Meets (Phrase.compliance schema) true)
      (fun maps => nested.Renders schema maps true) schema before (query nested true) := by
  refine audit_mono (audit_with h (query_builds nested true (fun h => h.elim) hready.sound)) ?_
  rintro fine node after ⟨hrendered, hadvances, -⟩
  exact ⟨hadvances.ready hready, hrendered⟩

mutual

theorem expression_renders : ∀ (written : Phrase.Expression) {before : Context},
    before.Ready schema → RendersExpression schema before written
  | .literal token, _, hready => literal_renders hready token
  | .parameter written, _, hready => parameter_renders hready written
  | .path dotted, _, hready => pathOrCall_renders hready dotted
  | .indexed base index remainder, _, hready =>
    indexed_renders hready (expression_renders index hready) base remainder
  | .treated base entity remainder, _, hready => treated_renders hready base entity remainder
  | .mapFunction function argument, _, hready => mapEntry_renders hready function argument
  | .arithmetic _ [left, right], _, hready =>
    two_render (expression_renders left hready) (expression_renders right) (by
      simp [Phrase.Expression.Meets, Phrase.expressionsMeet]) fun _ _ _ => by
        simp [Phrase.Expression.Renders, arithmetic]
  | .arithmetic _ [], _, _ => audit_throw _
  | .arithmetic _ [_], _, _ => audit_throw _
  | .arithmetic _ (_ :: _ :: _ :: _), _, _ => audit_throw _
  | .concatenation [left, right], _, hready =>
    two_render (expression_renders left hready) (expression_renders right) (by
      simp [Phrase.Expression.Meets, Phrase.expressionsMeet]) fun _ _ _ => by
        simp [Phrase.Expression.Renders]
  | .concatenation [], _, _ => audit_throw _
  | .concatenation [_], _, _ => audit_throw _
  | .concatenation (_ :: _ :: _ :: _), _, _ => audit_throw _
  | .unary _ operand, _, hready =>
    one_renders (expression_renders operand hready) Iff.rfl fun _ _ => by
      simp [Phrase.Expression.Renders]
  | .grouped inner, _, hready => expression_renders inner hready
  | .call _ _ _ _ [], _, hready =>
    call_renders hready (fun _ h => by cases h) (expressions_render [])
  | .call _ _ _ _ [argument], _, hready =>
    call_renders hready
      (fun _ h => by
        cases h
        exact expression_renders argument)
      (expressions_render [argument])
  | .call _ _ _ _ (first :: second :: rest), _, hready =>
    call_renders hready (fun _ h => by cases h) (expressions_render (first :: second :: rest))
  | .simpleCase operand whens otherwise, _, hready =>
    three_render (expression_renders operand hready) (simpleWhens_render whens)
      (optional_renders otherwise) Iff.rfl fun _ _ _ _ => by simp [Phrase.Expression.Renders]
  | .searchedCase whens otherwise, _, hready =>
    two_render (searchedWhens_render whens hready) (optional_renders otherwise) Iff.rfl
      fun _ _ _ => by simp [Phrase.Expression.Renders]
  | .subquery nested, before, hready =>
    one_renders (nested_renders hready
      (query_renders nested true hready.sound fun _ => hready.inside)) Iff.rfl fun _ _ => by
        simp [Phrase.Expression.Renders, Resolved.Subquery.ofSelect]

theorem expressions_render : ∀ (written : List Phrase.Expression) {before : Context},
    before.Ready schema →
      Rendering (Phrase.expressionsMeet (Phrase.compliance schema) written)
        (fun maps => Phrase.expressionsRender schema maps written) schema before
        (expressions written)
  | [], _, hready => audit_pure ⟨hready, .of_form (fun _ => rfl) (by
      simp [Phrase.expressionsMeet])⟩
  | first :: rest, _, hready =>
    two_render (expression_renders first hready) (expressions_render rest) Iff.rfl
      fun _ _ _ => by simp [Phrase.expressionsRender]

theorem optional_renders : ∀ (written : Option Phrase.Expression) {before : Context},
    before.Ready schema →
      Rendering (Phrase.optionalMeets (Phrase.compliance schema) written)
        (fun maps => Phrase.optionalRenders schema maps written) schema before (optional written)
  | none, _, hready => audit_pure ⟨hready, .of_form (fun _ => rfl) (by
      simp [Phrase.optionalMeets])⟩
  | some written, _, hready =>
    one_renders (expression_renders written hready) Iff.rfl fun _ _ => by
      simp [Phrase.optionalRenders]

theorem simpleWhens_render : ∀ (written : List Phrase.SimpleWhen) {before : Context},
    before.Ready schema →
      Rendering (Phrase.simpleWhensMeet (Phrase.compliance schema) written)
        (fun maps => Phrase.simpleWhensRender schema maps written) schema before
        (simpleWhens written)
  | [], _, hready => audit_pure ⟨hready, .of_form (fun _ => rfl) (by
      simp [Phrase.simpleWhensMeet])⟩
  | .mk value result :: rest, _, hready =>
    simpleWhens_render_cons (expression_renders value hready) (expression_renders result)
      (simpleWhens_render rest)

theorem searchedWhens_render : ∀ (written : List Phrase.SearchedWhen) {before : Context},
    before.Ready schema →
      Rendering (Phrase.searchedWhensMeet (Phrase.compliance schema) written)
        (fun maps => Phrase.searchedWhensRender schema maps written) schema before
        (searchedWhens written)
  | [], _, hready => audit_pure ⟨hready, .of_form (fun _ => rfl) (by
      simp [Phrase.searchedWhensMeet])⟩
  | .mk condition result :: rest, _, hready =>
    searchedWhens_render_cons (predicate_renders condition hready) (expression_renders result)
      (searchedWhens_render rest)

theorem predicate_renders : ∀ (written : Phrase.Predicate) {before : Context},
    before.Ready schema → RendersPredicate schema before written
  | .and left right, _, hready =>
    two_render (predicate_renders left hready) (predicate_renders right) Iff.rfl
      fun _ _ _ => by simp [Phrase.Predicate.Renders]
  | .or left right, _, hready =>
    two_render (predicate_renders left hready) (predicate_renders right) Iff.rfl
      fun _ _ _ => by simp [Phrase.Predicate.Renders]
  | .not inner, _, hready =>
    one_renders (predicate_renders inner hready) Iff.rfl
      fun _ _ => by simp [Phrase.Predicate.Renders]
  | .grouped inner, _, hready =>
    one_renders (predicate_renders inner hready) Iff.rfl
      fun _ _ => by simp [Phrase.Predicate.Renders]
  | .comparison _ left right, _, hready =>
    two_render (expression_renders left hready) (expression_renders right) Iff.rfl
      fun _ _ _ => by simp [Phrase.Predicate.Renders]
  | .between tested lower upper _, _, hready =>
    three_render (expression_renders tested hready) (expression_renders lower)
      (expression_renders upper) Iff.rfl fun _ _ _ _ => by simp [Phrase.Predicate.Renders]
  | .like matched pattern escape _, _, hready =>
    three_render (expression_renders matched hready) (expression_renders pattern)
      (optional_renders escape) Iff.rfl fun _ _ _ _ => by simp [Phrase.Predicate.Renders]
  | .inList tested items _, _, hready =>
    two_render (expression_renders tested hready) (expressions_render items) Iff.rfl
      fun _ _ _ => by simp [Phrase.Predicate.Renders]
  | .inSubquery tested operand _, _, hready => by
    cases operand with
    | subquery nested =>
      exact inSubquery_renders (expression_renders tested hready)
        fun hbetween => nested_renders hbetween
          (query_renders nested true hbetween.sound fun _ => hbetween.inside)
    | _ =>
      exact audit_bind (expression_renders tested hready) fun _ _ _ _ _ => audit_throw _
  | .isNull tested _, _, hready =>
    one_renders (expression_renders tested hready) Iff.rfl
      fun _ _ => by simp [Phrase.Predicate.Renders]
  | .isEmpty collection _, _, hready => isEmpty_renders (expression_renders collection hready)
  | .memberOf element collection _, _, hready =>
    memberOf_renders (expression_renders element hready) (expression_renders collection)
  | .existence operand _, _, hready => by
    cases operand with
    | subquery nested =>
      exact one_renders (nested_renders hready
        (query_renders nested true hready.sound fun _ => hready.inside)) Iff.rfl fun _ _ => by
          simp [Phrase.Predicate.Renders, Resolved.Subquery.ofSelect]
    | _ => exact audit_throw _

theorem restriction_renders : ∀ (written : Option Phrase.Predicate) {before : Context},
    before.Ready schema →
      Rendering (Phrase.restrictionMeets (Phrase.compliance schema) written)
        (fun maps => Phrase.restrictionRenders schema maps written) schema before
        (restriction written)
  | none, _, hready => audit_pure ⟨hready, .of_form (fun _ => rfl) (by
      simp [Phrase.restrictionMeets])⟩
  | some written, _, hready =>
    one_renders (predicate_renders written hready) Iff.rfl fun _ _ => by
      simp [Phrase.restrictionRenders]

theorem selectExpression_renders : ∀ (written : Phrase.SelectExpression) {before : Context},
    before.Ready schema →
      Rendering (written.Meets (Phrase.compliance schema))
        (fun maps => written.Renders schema maps) schema before (selectExpression written)
  | .instantiation _ items, _, hready => instantiation_renders (arguments_render items hready)
  | .object name, _, hready => object_renders hready name
  | .expression written, _, hready => expression_renders written hready

theorem arguments_render : ∀ (written : List Phrase.SelectItem) {before : Context},
    before.Ready schema →
      Rendering (Phrase.argumentsMeet (Phrase.compliance schema) written)
        (fun maps => Phrase.argumentsRender schema maps written) schema before (arguments written)
  | [], _, hready => audit_pure ⟨hready, .of_form (fun _ => rfl) (by
      simp [Phrase.argumentsMeet])⟩
  | .mk written _ :: rest, _, hready =>
    two_render (selectExpression_renders written hready) (arguments_render rest) Iff.rfl
      fun _ _ _ => by simp [Phrase.argumentsRender]

theorem selections_render : ∀ (written : List Phrase.SelectItem) (position : Nat)
    {before : Context}, before.Ready schema →
      Rendering (Phrase.selectionsMeet (Phrase.compliance schema) written)
        (fun maps => Phrase.selectionsRender schema maps written) schema before
        (selections written position)
  | [], _, _, hready => audit_pure ⟨hready, .of_form (fun _ => rfl) (by
      simp [Phrase.selectionsMeet])⟩
  | .mk written _ :: rest, position, _, hready =>
    selections_render_cons (selectExpression_renders written hready)
      (selections_render rest (position + 1))

theorem selectClause_renders : ∀ (written : Option Phrase.SelectClause) {before : Context},
    before.Ready schema →
      Rendering (clauseComplies schema written)
        (fun maps value => Phrase.clauseRenders schema maps written value.1 value.2) schema before
        (selectClause written)
  | none, _, hready => by
    refine audit_bind (implicitSelection_audit hready) ?_
    rintro _ selections after - ⟨rfl, hafter, root, rfl⟩
    refine audit_pure ⟨hafter, ⟨rfl, root, rfl⟩, ?_⟩
    simp [clauseComplies]
  | some (.mk distinct items), _, hready =>
    one_renders (selections_render items 0 hready) (by
      simp [clauseComplies, Phrase.clauseMeets]) fun _ _ => by simp [Phrase.clauseRenders]

theorem join_renders : ∀ (written : Phrase.Join) {before : Context} {id : SpaceId},
    before.Ready schema → before.levels.Last id →
      JoinRendering written schema before (join id written)
  | .cross written, _, _, _, hlast => cross_renders hlast written
  | .collection path alias?, _, _, _, hlast => member_renders hlast path alias?
  | .qualified type fetch target alias? none, _, _, hready, hlast =>
    qualified_renders hlast hready.sound type fetch target alias? none fun _ h => by cases h
  | .qualified type fetch target alias? (some written), _, _, hready, hlast =>
    qualified_renders hlast hready.sound type fetch target alias? (some written) fun _ h => by
      cases h
      exact predicate_renders written

theorem joins_render : ∀ (written : List Phrase.Join) {before : Context} {id : SpaceId},
    before.Ready schema → before.levels.Last id →
      JoinsRendering written schema before (joins id written)
  | [], _, _, _, hlast => joins_render_nil hlast
  | first :: rest, _, _, hready, hlast =>
    joins_render_cons hready hlast (join_renders first hready hlast) (joins_render rest)

theorem spaces_render : ∀ (written : List Phrase.Space) {nested : Bool} {before : Context},
    before.Ready schema → (nested = true → 1 < before.levels.length) →
      SpacesRendering nested written schema before (spaces written)
  | [], _, _, hready, _ => spaces_render_nil hready
  | .mk _ hanging :: rest, _, _, hready, hnested =>
    spaces_render_cons hready
      (space_renders hready hnested fun _ _ hbetween hlast => joins_render hanging hbetween hlast)
      fun hbetween hlength => spaces_render rest hbetween (hlength ▸ hnested)

theorem sortItems_render : ∀ (written : List Phrase.SortItem) {before : Context},
    before.Ready schema →
      Rendering (Phrase.sortItemsMeet (Phrase.compliance schema) written)
        (fun maps => Phrase.sortItemsRender schema maps written) schema before (sortItems written)
  | [], _, hready => audit_pure ⟨hready, .of_form (fun _ => rfl) (by
      simp [Phrase.sortItemsMeet])⟩
  | .mk written _ _ :: rest, _, hready =>
    sortItems_render_cons hready (expression_renders written hready) (sortItems_render rest)

theorem order_renders : ∀ (written : Option (List Phrase.SortItem)) {before : Context},
    before.Ready schema →
      Rendering (Phrase.orderMeets (Phrase.compliance schema) written)
        (fun maps => Phrase.orderRenders schema maps written) schema before (order written)
  | none, _, hready => audit_pure ⟨hready, .of_form (fun _ => rfl) (by
      simp [Phrase.orderMeets])⟩
  | some written, _, hready =>
    one_renders (sortItems_render written hready) Iff.rfl fun _ _ => by
      simp [Phrase.orderRenders]

theorem query_renders : ∀ (written : Phrase.Query) (nested : Bool) {before : Context},
    before.Sound (schema.withStrict false) False → (nested = true → before.levels ≠ []) →
      Audit schema before (query written nested) fun fine node _ =>
        Rendered (written.Meets (Phrase.compliance schema) nested)
          (fun maps => written.Renders schema maps nested node) fine
  | .mk select written condition ordering limit offset, _, _, hsound, hnested =>
    query_clauses_render hsound hnested (spaces_render written) fun hready =>
      clauses_render (selectClause_renders select hready) (restriction_renders condition)
        (order_renders ordering) (optional_renders limit) (optional_renders offset)

end

end EntityQuery.Interpretation.Step

import EntityQuery.Interpretation.Query
import EntityQuery.Proofs.RestrictedPaths
import EntityQuery.Proofs.ResultNames

/-!
# Queries that steps build

Every step of a query keeps the state sound and builds a tree that meets the rules. The proof
follows the recursion of the steps on the phrase, one case for each form. A nested query is built
on a level of its own, so that what it binds is finished when the level is left. The predicate of a
join is looked at twice: for what it builds, and for what it mentions outside nested queries.

* `Step.expression_builds`, `Step.predicate_builds`, `Step.query_builds`.
* `Step.clauses`: the clauses of a query behind its from clause.
* `Step.expression_minds`, `Step.predicate_minds`: what the restriction of a join mentions.
-/

namespace EntityQuery.Interpretation.Step

open Resolved

variable {schema : Schema} {clean : Prop} {before between : Context}

/-- The resolver of a step does not matter for what it builds. -/
theorem under_ends {α : Type} (hsound : before.Sound schema clean) {resolver : Resolver}
    {step : Step α} {bound : α → List FromElement}
    {meets : Rules → List FromElement → α → Prop}
    (h : ∀ context, context.Sound schema clean → Builds bound meets schema clean context step) :
    Builds bound meets schema clean before (under resolver step) := by
  have hpush : before.Advances schema clean [] (before.pushResolver resolver) :=
    hsound.idle _ before.style? before.advisories
  refine ends_under (ends_mono (h _ hpush.sound) ?_)
  rintro value after ⟨hadvances, hmeets⟩
  have hpop : after.Advances schema clean [] after.popResolver :=
    hadvances.sound.idle _ after.style? after.advisories
  refine ⟨?_, hmeets⟩
  have hall := (hpush.trans hadvances).trans hpop
  rw [List.append_nil] at hall
  exact hall

/-- The result variables of an order are those that were bound when the order was read. -/
def VariablesBound (context : Context) (expression : Expression) : Prop :=
  ∀ aliasName position type?, expression = .selection aliasName position type? →
    ∃ result ∈ context.trail.results, result.aliasName = aliasName ∧ result.position = position
      ∧ type? = result.expression.type?

theorem resultVariable?_some {trail : Trail} {written : Phrase.Expression} {value : Expression}
    (h : resultVariable? trail written = some value) :
    ∃ result ∈ trail.results,
      value = .selection result.aliasName result.position result.expression.type? := by
  unfold resultVariable? at h
  split at h
  · split at h
    · obtain ⟨result, hresult, rfl⟩ := Option.map_eq_some_iff.mp h
      obtain ⟨hmem, hname⟩ := Trail.selection?_some hresult
      exact ⟨result, hmem, by rw [hname]⟩
    · cases h
  · cases h

/-- An expression that meets the rules is no result variable. -/
theorem holds_not_variable {scope : List FromElement} {value : Expression} {context : Context}
    (h : value.Holds (context.rules schema clean) scope) : value.isVariable = false := by
  cases value with
  | selection aliasName position type? =>
    have htyped : (Expression.selection aliasName position type?).Typed := h
    exact htyped.1
  | _ => rfl

/-! ## Steps put together -/

/-- The clauses of a query behind its from clause, which wait for the finished spaces. -/
def clauses (select : Option Phrase.SelectClause) (condition : Option Phrase.Predicate)
    (ordering : Option (List Phrase.SortItem)) (limit offset : Option Phrase.Expression) :
    Step (List Resolved.Space → Resolved.Select) := do
  let (distinct, selections) ← selectClause select
  let condition ← restriction condition
  let ordering ← order ordering
  let limit ← optional limit
  let offset ← optional offset
  return fun spaces => .mk spaces distinct selections condition ordering limit offset

/-- A judgement that goes over to weaker rules and larger scopes. -/
def Keeps {α : Type} (meets : Rules → List FromElement → α → Prop) : Prop :=
  ∀ {rules weaker : Rules} {scope larger : List FromElement} {value : α}, rules.Implies weaker →
    scope ⊆ larger → meets rules scope value → meets weaker larger value

theorem keeps_expression : Keeps Expression.Holds :=
  fun himp hsub h => Expression.Holds.mono himp hsub h

theorem keeps_predicate : Keeps Predicate.Holds :=
  fun himp hsub h => Predicate.Holds.mono himp hsub h

section

variable {α β γ δ : Type} {first : Step α} {second : Step β} {third : Step γ}
  {boundFirst : α → List FromElement} {boundSecond : β → List FromElement}
  {boundThird : γ → List FromElement} {bound : δ → List FromElement}
  {meetsFirst : Rules → List FromElement → α → Prop}
  {meetsSecond : Rules → List FromElement → β → Prop}
  {meetsThird : Rules → List FromElement → γ → Prop}
  {meets : Rules → List FromElement → δ → Prop}

/-- A tree over one part. -/
theorem one_builds {combine : α → δ}
    (hfirst : Builds boundFirst meetsFirst schema clean before first)
    (hbound : ∀ one, bound (combine one) = boundFirst one)
    (hmeets : ∀ {registered scope} one, meetsFirst (builtRules schema clean registered) scope one →
      meets (builtRules schema clean registered) scope (combine one)) :
    Builds bound meets schema clean before (do
      let one ← first
      return combine one) := by
  refine ends_bind hfirst ?_
  rintro one after ⟨hadvances, hone⟩
  refine ends_pure ⟨?_, hmeets one hone⟩
  rw [hbound]
  exact hadvances

/-- A tree over two parts, the first of which is built before the second. -/
theorem two_build {combine : α → β → δ}
    (hfirst : Builds boundFirst meetsFirst schema clean before first)
    (hsecond : ∀ {between : Context}, between.Sound schema clean →
      Builds boundSecond meetsSecond schema clean between second)
    (hkeeps : Keeps meetsFirst)
    (hbound : ∀ one two, bound (combine one two) = boundFirst one ++ boundSecond two)
    (hmeets : ∀ {registered scope} one two,
      meetsFirst (builtRules schema clean registered) scope one →
      meetsSecond (builtRules schema clean registered) scope two →
      meets (builtRules schema clean registered) scope (combine one two)) :
    Builds bound meets schema clean before (do
      let one ← first
      let two ← second
      return combine one two) := by
  refine ends_bind hfirst ?_
  rintro one between ⟨hadvances, hone⟩
  refine ends_bind (hsecond hadvances.sound) ?_
  rintro two after ⟨hlater, htwo⟩
  refine ends_pure ⟨?_, hmeets one two (hkeeps hlater.rules hlater.scope hone) htwo⟩
  rw [hbound]
  exact hadvances.trans hlater

/-- A tree over three parts. -/
theorem three_build {combine : α → β → γ → δ}
    (hfirst : Builds boundFirst meetsFirst schema clean before first)
    (hsecond : ∀ {between : Context}, between.Sound schema clean →
      Builds boundSecond meetsSecond schema clean between second)
    (hthird : ∀ {between : Context}, between.Sound schema clean →
      Builds boundThird meetsThird schema clean between third)
    (hkeeps : Keeps meetsFirst) (hkeeps' : Keeps meetsSecond)
    (hbound : ∀ one two three, bound (combine one two three)
      = boundFirst one ++ boundSecond two ++ boundThird three)
    (hmeets : ∀ {registered scope} one two three,
      meetsFirst (builtRules schema clean registered) scope one →
      meetsSecond (builtRules schema clean registered) scope two →
      meetsThird (builtRules schema clean registered) scope three →
      meets (builtRules schema clean registered) scope (combine one two three)) :
    Builds bound meets schema clean before (do
      let one ← first
      let two ← second
      let three ← third
      return combine one two three) := by
  refine ends_bind hfirst ?_
  rintro one between ⟨hadvances, hone⟩
  refine ends_bind (hsecond hadvances.sound) ?_
  rintro two after ⟨hlater, htwo⟩
  refine ends_bind (hthird hlater.sound) ?_
  rintro three last ⟨hlast, hthree⟩
  have hboth := hlater.trans hlast
  refine ends_pure ⟨?_, hmeets one two three (hkeeps hboth.rules hboth.scope hone)
    (hkeeps' hlast.rules hlast.scope htwo) hthree⟩
  rw [hbound]
  exact (hadvances.trans hlater).trans hlast

end

/-! ## Forms with checks of their own -/

theorem call_builds {name : String} {generic distinct star : Bool}
    {arguments : List Phrase.Expression} (hsound : before.Sound schema clean)
    (hone : ∀ argument, arguments = [argument] → ∀ {between : Context},
      between.Sound schema clean → BuildsExpression schema clean between (expression argument))
    (hall : ∀ {between : Context}, between.Sound schema clean →
      Builds expressionsBound expressionsHold schema clean between (expressions arguments)) :
    BuildsExpression schema clean before
      (expression (.call name generic distinct star arguments)) := by
  simp only [expression]
  split
  · rename_i function hfunction
    refine ends_bind (announceCollectionFunction_ends hsound function) ?_
    rintro _ between hadvances
    split
    · rename_i argument
      split
      · refine ends_mono (indexOfJoin_builds hadvances.sound argument) ?_
        rintro value after ⟨hlater, hvalue⟩
        exact ⟨hadvances.trans hlater, hvalue⟩
      · refine ends_bind (hone argument rfl hadvances.sound) ?_
        rintro value after ⟨hlater, hvalue⟩
        exact collectionFunction_builds (hadvances.trans hlater) hvalue
    · exact ends_throw _
  · refine ends_bind (announceCall_ends hsound name generic _) ?_
    rintro _ between hadvances
    refine ends_bind (hall hadvances.sound) ?_
    rintro values after ⟨hlater, hvalues⟩
    exact ends_pure ⟨hadvances.trans hlater, call_typed name distinct star _ values, hvalues⟩

/-- The left operand of a predicate on collections is a plural attribute. -/
theorem isEmpty_builds {written : Phrase.Expression} {negated : Bool}
    (h : BuildsExpression schema clean before (expression written)) :
    Builds Predicate.boundElements Predicate.Holds schema clean before
      (predicate (.isEmpty written negated)) := by
  refine ends_bind h ?_
  rintro value between ⟨hadvances, hvalue⟩
  refine ends_bind (pluralOperand_ends (Q := fun collection after => between = after
    ∧ value = .reference collection ∧ collection.isPlural = true)
    fun _ hform hplural => ⟨rfl, hform, hplural⟩) ?_
  rintro collection after ⟨rfl, rfl, hplural⟩
  exact ends_pure ⟨hadvances, hplural, hvalue.2⟩

theorem memberOf_builds {element collection : Phrase.Expression} {negated : Bool}
    (helement : BuildsExpression schema clean before (expression element))
    (hcollection : ∀ {between : Context}, between.Sound schema clean →
      BuildsExpression schema clean between (expression collection)) :
    Builds Predicate.boundElements Predicate.Holds schema clean before
      (predicate (.memberOf element collection negated)) := by
  refine ends_bind helement ?_
  rintro value between ⟨hadvances, hvalue⟩
  refine ends_bind (pluralOperand_ends (Q := fun collection after => between = after
    ∧ value = .reference collection ∧ collection.isPlural = true)
    fun _ hform hplural => ⟨rfl, hform, hplural⟩) ?_
  rintro plural same ⟨rfl, rfl, hplural⟩
  refine ends_bind (hcollection hadvances.sound) ?_
  rintro other after ⟨hlater, hother⟩
  exact ends_pure ⟨hadvances.trans hlater, hplural, hvalue.2.mono hlater.rules hlater.scope,
    hother⟩

theorem instantiation_builds {target : Phrase.Target} {items : List Phrase.SelectItem}
    (hitems : Builds argumentsBound argumentsHold schema clean before (arguments items)) :
    BuildsExpression schema clean before (selectExpression (.instantiation target items)) := by
  refine ends_bind (instantiationTarget_ends (Q := fun _ after => before = after)
    fun _ => rfl) ?_
  rintro made between rfl
  exact one_builds hitems (fun _ => rfl) fun _ h => ⟨⟨rfl, rfl⟩, h⟩

/-! ## The same forms in the restriction of a join -/

section

variable {id : SpaceId}

theorem call_minds {name : String} {generic distinct star : Bool}
    {arguments : List Phrase.Expression} (hbefore : before.Restricting schema clean id)
    (hone : ∀ argument, arguments = [argument] → ∀ {between : Context},
      between.Restricting schema clean id →
        Minds Expression.ownElements schema clean id between (expression argument))
    (hall : ∀ {between : Context}, between.Restricting schema clean id →
      Minds ownOfExpressions schema clean id between (expressions arguments)) :
    Minds Expression.ownElements schema clean id before
      (expression (.call name generic distinct star arguments)) := by
  simp only [expression]
  split
  · rename_i function hfunction
    refine settling_bind (settling_of (Q := fun _ _ => True) hbefore
      (ends_mono (announceCollectionFunction_ends hbefore.sound function)
        fun _ _ h => ⟨h.sound, trivial⟩)
      (announceCollectionFunction_moves (settleMotion schema fun _ => True) function)
      fun _ _ _ _ h => h) ?_
    rintro _ between hbetween - -
    split
    · rename_i argument
      split
      · exact indexOfJoin_minds hbetween argument
      · refine settling_bind (hone argument rfl hbetween) ?_
        exact fun value after hafter _ hvalue => collectionFunction_minds hafter hvalue function
    · exact ends_throw _
  · refine settling_bind (settling_of (Q := fun _ _ => True) hbefore
      (ends_mono (announceCall_ends hbefore.sound name generic _) fun _ _ h => ⟨h.sound, trivial⟩)
      (announceCall_moves (settleMotion schema fun _ => True) name generic _)
      fun _ _ _ _ h => h) ?_
    rintro _ between hbetween - -
    exact one_minds (hall hbetween) fun _ => rfl

/-- A plural operand mentions what the expression does that it is found in. -/
theorem pluralOperand_minds {form : PluralForm} {operand : Expression}
    (hbefore : before.Restricting schema clean id)
    (hoperand : ∀ element ∈ operand.ownElements, before.levels.Near id element) :
    Minds AttributeReference.ownElements schema clean id before (pluralOperand form operand) :=
  pluralOperand_ends fun collection hform _ =>
    ⟨hbefore, ⟨.refl _, rfl⟩, by rw [hform] at hoperand; exact hoperand⟩

theorem isEmpty_minds {written : Phrase.Expression} {negated : Bool}
    (h : Minds Expression.ownElements schema clean id before (expression written)) :
    Minds Predicate.ownElements schema clean id before (predicate (.isEmpty written negated)) :=
  settling_bind h fun _ _ hbetween _ hvalue =>
    one_minds (pluralOperand_minds hbetween hvalue) fun _ => rfl

theorem memberOf_minds {element collection : Phrase.Expression} {negated : Bool}
    (helement : Minds Expression.ownElements schema clean id before (expression element))
    (hcollection : ∀ {between : Context}, between.Restricting schema clean id →
      Minds Expression.ownElements schema clean id between (expression collection)) :
    Minds Predicate.ownElements schema clean id before
      (predicate (.memberOf element collection negated)) :=
  settling_bind helement fun _ _ hbetween _ hvalue =>
    two_mind (pluralOperand_minds hbetween hvalue) hcollection fun _ _ => rfl

/-- What a nested query mentions is not looked at. -/
theorem nested_minds (written : Phrase.Query) (hbefore : before.Restricting schema clean id)
    (h : Builds Select.boundElements Select.Holds schema clean before (query written true)) :
    Minds (fun _ : Select => []) schema clean id before (query written true) :=
  settling_of hbefore (ends_mono h fun _ _ h => ⟨h.1.sound, trivial⟩)
    (query_moves (settleMotion schema fun _ => True) written true
      (written.meets treating_always true))
    fun _ _ _ _ _ _ h => by cases h

end

mutual

theorem expression_builds : ∀ (written : Phrase.Expression) {before : Context},
    (clean → written.Plain) → before.Sound schema clean →
      BuildsExpression schema clean before (expression written)
  | .literal token, _, _, hsound => literal_builds hsound token
  | .parameter written, _, _, hsound => parameter_builds hsound written
  | .path dotted, _, _, hsound => pathOrCall_builds hsound dotted
  | .indexed base index remainder, _, hplain, hsound =>
    ends_bind (expression_builds index hplain hsound)
      fun _ _ ⟨hadvances, hvalue⟩ => indexed_builds hadvances hvalue base remainder
  | .treated base entity remainder, _, _, hsound => treated_builds hsound base entity remainder
  | .mapFunction function argument, _, _, hsound => mapEntry_builds hsound function argument
  | .arithmetic _ [left, right], _, hplain, hsound =>
    two_build (expression_builds left (fun hc => (hplain hc).1) hsound)
      (expression_builds right fun hc => (hplain hc).2.1) keeps_expression (fun _ _ => rfl)
      fun _ _ hleft hright => ⟨⟨rfl, rfl⟩, hleft, hright⟩
  | .arithmetic _ [], _, _, _ => ends_throw _
  | .arithmetic _ [_], _, _, _ => ends_throw _
  | .arithmetic _ (_ :: _ :: _ :: _), _, _, _ => ends_throw _
  | .concatenation [left, right], _, hplain, hsound =>
    two_build (expression_builds left (fun hc => (hplain hc).1) hsound)
      (expression_builds right fun hc => (hplain hc).2.1) keeps_expression (fun _ _ => rfl)
      fun _ _ hleft hright => ⟨⟨rfl, rfl⟩, hleft, hright⟩
  | .concatenation [], _, _, _ => ends_throw _
  | .concatenation [_], _, _, _ => ends_throw _
  | .concatenation (_ :: _ :: _ :: _), _, _, _ => ends_throw _
  | .unary _ operand, _, hplain, hsound =>
    one_builds (expression_builds operand hplain hsound) (fun _ => rfl)
      fun _ hoperand => ⟨⟨rfl, rfl⟩, hoperand⟩
  | .grouped inner, _, hplain, hsound => expression_builds inner hplain hsound
  | .call _ _ _ _ [], _, hplain, hsound =>
    call_builds hsound (fun _ h => by cases h) (expressions_build [] hplain)
  | .call _ _ _ _ [argument], _, hplain, hsound =>
    call_builds hsound
      (fun _ h => by
        cases h
        exact expression_builds argument fun hc => (hplain hc).1)
      (expressions_build [argument] hplain)
  | .call _ _ _ _ (first :: second :: rest), _, hplain, hsound =>
    call_builds hsound (fun _ h => by cases h)
      (expressions_build (first :: second :: rest) hplain)
  | .simpleCase operand whens otherwise, _, hplain, hsound =>
    three_build (expression_builds operand (fun hc => (hplain hc).1) hsound)
      (simpleWhens_build whens fun hc => (hplain hc).2.1)
      (optional_builds otherwise fun hc => (hplain hc).2.2) keeps_expression
      (fun himp hsub h => simpleWhensHold_mono himp hsub h) (fun _ _ _ => rfl)
      fun _ _ _ hoperand hwhens hotherwise => ⟨⟨rfl, rfl⟩, hoperand, hwhens, hotherwise⟩
  | .searchedCase whens otherwise, _, hplain, hsound =>
    two_build (searchedWhens_build whens (fun hc => (hplain hc).1) hsound)
      (optional_builds otherwise fun hc => (hplain hc).2)
      (fun himp hsub h => searchedWhensHold_mono himp hsub h) (fun _ _ => rfl)
      fun _ _ hwhens hotherwise => ⟨⟨rfl, rfl⟩, hwhens, hotherwise⟩
  | .subquery nested, _, hplain, hsound =>
    one_builds (query_builds nested true hplain hsound) (fun _ => rfl)
      fun _ hselect => ⟨⟨rfl, rfl⟩, rfl, hselect⟩

theorem expressions_build : ∀ (written : List Phrase.Expression) {before : Context},
    (clean → Phrase.expressionsPlain written) → before.Sound schema clean →
      Builds expressionsBound expressionsHold schema clean before (expressions written)
  | [], _, _, hsound => ends_pure ⟨.refl hsound, trivial⟩
  | first :: rest, _, hplain, hsound =>
    two_build (expression_builds first (fun hc => (hplain hc).1) hsound)
      (expressions_build rest fun hc => (hplain hc).2) keeps_expression (fun _ _ => rfl)
      fun _ _ hfirst hrest => ⟨hfirst, hrest⟩

theorem optional_builds : ∀ (written : Option Phrase.Expression) {before : Context},
    (clean → Phrase.optionalPlain written) → before.Sound schema clean →
      Builds optionalBound optionalHolds schema clean before (optional written)
  | none, _, _, hsound => ends_pure ⟨.refl hsound, trivial⟩
  | some written, _, hplain, hsound =>
    one_builds (expression_builds written hplain hsound) (fun _ => rfl) fun _ h => h

theorem simpleWhen_builds : ∀ (written : Phrase.SimpleWhen) {before : Context},
    (clean → written.Plain) → before.Sound schema clean →
      Builds SimpleWhen.boundElements SimpleWhen.Holds schema clean before (simpleWhen written)
  | .mk value result, _, hplain, hsound =>
    two_build (expression_builds value (fun hc => (hplain hc).1) hsound)
      (expression_builds result fun hc => (hplain hc).2) keeps_expression (fun _ _ => rfl)
      fun _ _ hvalue hresult => ⟨hvalue, hresult⟩

theorem simpleWhens_build : ∀ (written : List Phrase.SimpleWhen) {before : Context},
    (clean → Phrase.simpleWhensPlain written) → before.Sound schema clean →
      Builds simpleWhensBound simpleWhensHold schema clean before (simpleWhens written)
  | [], _, _, hsound => ends_pure ⟨.refl hsound, trivial⟩
  | first :: rest, _, hplain, hsound =>
    two_build (simpleWhen_builds first (fun hc => (hplain hc).1) hsound)
      (simpleWhens_build rest fun hc => (hplain hc).2)
      (fun himp hsub h => SimpleWhen.Holds.mono himp hsub h) (fun _ _ => rfl)
      fun _ _ hfirst hrest => ⟨hfirst, hrest⟩

theorem searchedWhen_builds : ∀ (written : Phrase.SearchedWhen) {before : Context},
    (clean → written.Plain) → before.Sound schema clean →
      Builds SearchedWhen.boundElements SearchedWhen.Holds schema clean before
        (searchedWhen written)
  | .mk condition result, _, hplain, hsound =>
    two_build (predicate_builds condition (fun hc => (hplain hc).1) hsound)
      (expression_builds result fun hc => (hplain hc).2) keeps_predicate (fun _ _ => rfl)
      fun _ _ hcondition hresult => ⟨hcondition, hresult⟩

theorem searchedWhens_build : ∀ (written : List Phrase.SearchedWhen) {before : Context},
    (clean → Phrase.searchedWhensPlain written) → before.Sound schema clean →
      Builds searchedWhensBound searchedWhensHold schema clean before (searchedWhens written)
  | [], _, _, hsound => ends_pure ⟨.refl hsound, trivial⟩
  | first :: rest, _, hplain, hsound =>
    two_build (searchedWhen_builds first (fun hc => (hplain hc).1) hsound)
      (searchedWhens_build rest fun hc => (hplain hc).2)
      (fun himp hsub h => SearchedWhen.Holds.mono himp hsub h) (fun _ _ => rfl)
      fun _ _ hfirst hrest => ⟨hfirst, hrest⟩

theorem predicate_builds : ∀ (written : Phrase.Predicate) {before : Context},
    (clean → written.Plain) → before.Sound schema clean →
      Builds Predicate.boundElements Predicate.Holds schema clean before (predicate written)
  | .and left right, _, hplain, hsound =>
    two_build (predicate_builds left (fun hc => (hplain hc).1) hsound)
      (predicate_builds right fun hc => (hplain hc).2) keeps_predicate (fun _ _ => rfl)
      fun _ _ hleft hright => ⟨trivial, hleft, hright⟩
  | .or left right, _, hplain, hsound =>
    two_build (predicate_builds left (fun hc => (hplain hc).1) hsound)
      (predicate_builds right fun hc => (hplain hc).2) keeps_predicate (fun _ _ => rfl)
      fun _ _ hleft hright => ⟨trivial, hleft, hright⟩
  | .not inner, _, hplain, hsound =>
    one_builds (predicate_builds inner hplain hsound) (fun _ => rfl) fun _ h => ⟨trivial, h⟩
  | .grouped inner, _, hplain, hsound =>
    one_builds (predicate_builds inner hplain hsound) (fun _ => rfl) fun _ h => ⟨trivial, h⟩
  | .comparison _ left right, _, hplain, hsound =>
    two_build (expression_builds left (fun hc => (hplain hc).1) hsound)
      (expression_builds right fun hc => (hplain hc).2) keeps_expression (fun _ _ => rfl)
      fun _ _ hleft hright => ⟨trivial, hleft, hright⟩
  | .between tested lower upper _, _, hplain, hsound =>
    three_build (expression_builds tested (fun hc => (hplain hc).1) hsound)
      (expression_builds lower fun hc => (hplain hc).2.1)
      (expression_builds upper fun hc => (hplain hc).2.2) keeps_expression keeps_expression
      (fun _ _ _ => rfl) fun _ _ _ htested hlower hupper => ⟨trivial, htested, hlower, hupper⟩
  | .like matched pattern escape _, _, hplain, hsound =>
    three_build (expression_builds matched (fun hc => (hplain hc).1) hsound)
      (expression_builds pattern fun hc => (hplain hc).2.1)
      (optional_builds escape fun hc => (hplain hc).2.2) keeps_expression keeps_expression
      (fun _ _ _ => rfl) fun _ _ _ hmatched hpattern hescape =>
        ⟨trivial, hmatched, hpattern, hescape⟩
  | .inList tested items _, _, hplain, hsound =>
    two_build (expression_builds tested (fun hc => (hplain hc).1) hsound)
      (expressions_build items fun hc => (hplain hc).2) keeps_expression (fun _ _ => rfl)
      fun _ _ htested hitems => ⟨trivial, htested, hitems⟩
  | .inSubquery tested operand _, _, hplain, hsound => by
    cases operand with
    | subquery nested =>
      exact two_build (expression_builds tested (fun hc => (hplain hc).1) hsound)
        (query_builds nested true fun hc => (hplain hc).2) keeps_expression (fun _ _ => rfl)
        fun _ _ htested hselect => ⟨trivial, htested, rfl, hselect⟩
    | _ =>
      exact ends_bind (expression_builds tested (fun hc => (hplain hc).1) hsound)
        fun _ _ _ => ends_throw _
  | .isNull tested _, _, hplain, hsound =>
    one_builds (expression_builds tested hplain hsound) (fun _ => rfl) fun _ h => ⟨trivial, h⟩
  | .isEmpty collection _, _, hplain, hsound =>
    isEmpty_builds (expression_builds collection hplain hsound)
  | .memberOf element collection _, _, hplain, hsound =>
    memberOf_builds (expression_builds element (fun hc => (hplain hc).1) hsound)
      (expression_builds collection fun hc => (hplain hc).2)
  | .existence operand _, _, hplain, hsound => by
    cases operand with
    | subquery nested =>
      exact one_builds (query_builds nested true hplain hsound) (fun _ => rfl)
        fun _ hselect => ⟨trivial, rfl, hselect⟩
    | _ => exact ends_throw _

theorem expression_minds : ∀ (written : Phrase.Expression) {before : Context} {id : SpaceId},
    (clean → written.Plain) → before.Restricting schema clean id →
      Minds Expression.ownElements schema clean id before (expression written)
  | .literal token, _, _, _, hbefore => literal_minds hbefore token
  | .parameter written, _, _, _, hbefore => parameter_minds hbefore written
  | .path dotted, _, _, _, hbefore => pathOrCall_minds hbefore dotted
  | .indexed base index remainder, _, _, hplain, hbefore =>
    settling_bind (expression_minds index hplain hbefore)
      fun _ _ hbetween _ hindex => indexed_minds hbetween hindex base remainder
  | .treated base entity remainder, _, _, _, hbefore => treated_minds hbefore base entity remainder
  | .mapFunction function argument, _, _, _, hbefore => mapEntry_minds hbefore function argument
  | .arithmetic _ [left, right], _, _, hplain, hbefore =>
    two_mind (expression_minds left (fun hc => (hplain hc).1) hbefore)
      (expression_minds right fun hc => (hplain hc).2.1) fun _ _ => rfl
  | .arithmetic _ [], _, _, _, _ => ends_throw _
  | .arithmetic _ [_], _, _, _, _ => ends_throw _
  | .arithmetic _ (_ :: _ :: _ :: _), _, _, _, _ => ends_throw _
  | .concatenation [left, right], _, _, hplain, hbefore =>
    two_mind (expression_minds left (fun hc => (hplain hc).1) hbefore)
      (expression_minds right fun hc => (hplain hc).2.1) fun _ _ => rfl
  | .concatenation [], _, _, _, _ => ends_throw _
  | .concatenation [_], _, _, _, _ => ends_throw _
  | .concatenation (_ :: _ :: _ :: _), _, _, _, _ => ends_throw _
  | .unary _ operand, _, _, hplain, hbefore =>
    one_minds (expression_minds operand hplain hbefore) fun _ => rfl
  | .grouped inner, _, _, hplain, hbefore => expression_minds inner hplain hbefore
  | .call _ _ _ _ [], _, _, hplain, hbefore =>
    call_minds hbefore (fun _ h => by cases h) (expressions_mind [] hplain)
  | .call _ _ _ _ [argument], _, _, hplain, hbefore =>
    call_minds hbefore
      (fun _ h => by
        cases h
        exact expression_minds argument fun hc => (hplain hc).1)
      (expressions_mind [argument] hplain)
  | .call _ _ _ _ (first :: second :: rest), _, _, hplain, hbefore =>
    call_minds hbefore (fun _ h => by cases h) (expressions_mind (first :: second :: rest) hplain)
  | .simpleCase operand whens otherwise, _, _, hplain, hbefore =>
    three_mind (expression_minds operand (fun hc => (hplain hc).1) hbefore)
      (simpleWhens_mind whens fun hc => (hplain hc).2.1)
      (optional_minds otherwise fun hc => (hplain hc).2.2) fun _ _ _ => rfl
  | .searchedCase whens otherwise, _, _, hplain, hbefore =>
    two_mind (searchedWhens_mind whens (fun hc => (hplain hc).1) hbefore)
      (optional_minds otherwise fun hc => (hplain hc).2) fun _ _ => rfl
  | .subquery nested, _, _, hplain, hbefore =>
    one_minds (nested_minds nested hbefore (query_builds nested true hplain hbefore.sound))
      fun _ => rfl

theorem expressions_mind : ∀ (written : List Phrase.Expression) {before : Context} {id : SpaceId},
    (clean → Phrase.expressionsPlain written) → before.Restricting schema clean id →
      Minds ownOfExpressions schema clean id before (expressions written)
  | [], _, _, _, hbefore => settling_pure hbefore fun _ h => by cases h
  | first :: rest, _, _, hplain, hbefore =>
    two_mind (expression_minds first (fun hc => (hplain hc).1) hbefore)
      (expressions_mind rest fun hc => (hplain hc).2) fun _ _ => rfl

theorem optional_minds : ∀ (written : Option Phrase.Expression) {before : Context} {id : SpaceId},
    (clean → Phrase.optionalPlain written) → before.Restricting schema clean id →
      Minds ownOfOptional schema clean id before (optional written)
  | none, _, _, _, hbefore => settling_pure hbefore fun _ h => by cases h
  | some written, _, _, hplain, hbefore =>
    one_minds (expression_minds written hplain hbefore) fun _ => rfl

theorem simpleWhen_minds : ∀ (written : Phrase.SimpleWhen) {before : Context} {id : SpaceId},
    (clean → written.Plain) → before.Restricting schema clean id →
      Minds SimpleWhen.ownElements schema clean id before (simpleWhen written)
  | .mk value result, _, _, hplain, hbefore =>
    two_mind (expression_minds value (fun hc => (hplain hc).1) hbefore)
      (expression_minds result fun hc => (hplain hc).2) fun _ _ => rfl

theorem simpleWhens_mind : ∀ (written : List Phrase.SimpleWhen) {before : Context} {id : SpaceId},
    (clean → Phrase.simpleWhensPlain written) → before.Restricting schema clean id →
      Minds ownOfSimpleWhens schema clean id before (simpleWhens written)
  | [], _, _, _, hbefore => settling_pure hbefore fun _ h => by cases h
  | first :: rest, _, _, hplain, hbefore =>
    two_mind (simpleWhen_minds first (fun hc => (hplain hc).1) hbefore)
      (simpleWhens_mind rest fun hc => (hplain hc).2) fun _ _ => rfl

theorem searchedWhen_minds : ∀ (written : Phrase.SearchedWhen) {before : Context} {id : SpaceId},
    (clean → written.Plain) → before.Restricting schema clean id →
      Minds SearchedWhen.ownElements schema clean id before (searchedWhen written)
  | .mk condition result, _, _, hplain, hbefore =>
    two_mind (predicate_minds condition (fun hc => (hplain hc).1) hbefore)
      (expression_minds result fun hc => (hplain hc).2) fun _ _ => rfl

theorem searchedWhens_mind : ∀ (written : List Phrase.SearchedWhen) {before : Context}
    {id : SpaceId}, (clean → Phrase.searchedWhensPlain written) →
      before.Restricting schema clean id →
        Minds ownOfSearchedWhens schema clean id before (searchedWhens written)
  | [], _, _, _, hbefore => settling_pure hbefore fun _ h => by cases h
  | first :: rest, _, _, hplain, hbefore =>
    two_mind (searchedWhen_minds first (fun hc => (hplain hc).1) hbefore)
      (searchedWhens_mind rest fun hc => (hplain hc).2) fun _ _ => rfl

theorem predicate_minds : ∀ (written : Phrase.Predicate) {before : Context} {id : SpaceId},
    (clean → written.Plain) → before.Restricting schema clean id →
      Minds Predicate.ownElements schema clean id before (predicate written)
  | .and left right, _, _, hplain, hbefore =>
    two_mind (predicate_minds left (fun hc => (hplain hc).1) hbefore)
      (predicate_minds right fun hc => (hplain hc).2) fun _ _ => rfl
  | .or left right, _, _, hplain, hbefore =>
    two_mind (predicate_minds left (fun hc => (hplain hc).1) hbefore)
      (predicate_minds right fun hc => (hplain hc).2) fun _ _ => rfl
  | .not inner, _, _, hplain, hbefore =>
    one_minds (predicate_minds inner hplain hbefore) fun _ => rfl
  | .grouped inner, _, _, hplain, hbefore =>
    one_minds (predicate_minds inner hplain hbefore) fun _ => rfl
  | .comparison _ left right, _, _, hplain, hbefore =>
    two_mind (expression_minds left (fun hc => (hplain hc).1) hbefore)
      (expression_minds right fun hc => (hplain hc).2) fun _ _ => rfl
  | .between tested lower upper _, _, _, hplain, hbefore =>
    three_mind (expression_minds tested (fun hc => (hplain hc).1) hbefore)
      (expression_minds lower fun hc => (hplain hc).2.1)
      (expression_minds upper fun hc => (hplain hc).2.2) fun _ _ _ => rfl
  | .like matched pattern escape _, _, _, hplain, hbefore =>
    three_mind (expression_minds matched (fun hc => (hplain hc).1) hbefore)
      (expression_minds pattern fun hc => (hplain hc).2.1)
      (optional_minds escape fun hc => (hplain hc).2.2) fun _ _ _ => rfl
  | .inList tested items _, _, _, hplain, hbefore =>
    two_mind (expression_minds tested (fun hc => (hplain hc).1) hbefore)
      (expressions_mind items fun hc => (hplain hc).2) fun _ _ => rfl
  | .inSubquery tested operand _, _, _, hplain, hbefore => by
    cases operand with
    | subquery nested =>
      exact two_mind (expression_minds tested (fun hc => (hplain hc).1) hbefore)
        (fun hbetween => nested_minds nested hbetween
          (query_builds nested true (fun hc => (hplain hc).2) hbetween.sound))
        fun _ _ => (List.append_nil _).symm
    | _ =>
      exact settling_bind (expression_minds tested (fun hc => (hplain hc).1) hbefore)
        fun _ _ _ _ _ => ends_throw _
  | .isNull tested _, _, _, hplain, hbefore =>
    one_minds (expression_minds tested hplain hbefore) fun _ => rfl
  | .isEmpty collection _, _, _, hplain, hbefore =>
    isEmpty_minds (expression_minds collection hplain hbefore)
  | .memberOf element collection _, _, _, hplain, hbefore =>
    memberOf_minds (expression_minds element (fun hc => (hplain hc).1) hbefore)
      (expression_minds collection fun hc => (hplain hc).2)
  | .existence operand _, _, _, hplain, hbefore => by
    cases operand with
    | subquery nested =>
      exact one_minds (nested_minds nested hbefore
        (query_builds nested true hplain hbefore.sound)) fun _ => rfl
    | _ => exact ends_throw _

theorem restriction_builds : ∀ (written : Option Phrase.Predicate) {before : Context},
    (clean → Phrase.restrictionPlain written) → before.Sound schema clean →
      Builds restrictionBound restrictionHolds schema clean before (restriction written)
  | none, _, _, hsound => ends_pure ⟨.refl hsound, trivial⟩
  | some written, _, hplain, hsound =>
    one_builds (predicate_builds written hplain hsound) (fun _ => rfl) fun _ h => h

theorem selectExpression_builds : ∀ (written : Phrase.SelectExpression) {before : Context},
    (clean → written.Plain) → before.Sound schema clean →
      BuildsExpression schema clean before (selectExpression written)
  | .instantiation _ items, _, hplain, hsound =>
    instantiation_builds (arguments_build items hplain hsound)
  | .object name, _, _, hsound =>
    ends_bind (identificationVariable_finds hsound name)
      fun _ _ ⟨hadvances, hreaches⟩ => ends_pure (builds_element hadvances hreaches)
  | .expression written, _, hplain, hsound => expression_builds written hplain hsound

theorem arguments_build : ∀ (written : List Phrase.SelectItem) {before : Context},
    (clean → Phrase.itemsPlain written) → before.Sound schema clean →
      Builds argumentsBound argumentsHold schema clean before (arguments written)
  | [], _, _, hsound => ends_pure ⟨.refl hsound, trivial⟩
  | .mk written _ :: rest, _, hplain, hsound =>
    two_build (selectExpression_builds written (fun hc => (hplain hc).1.2) hsound)
      (arguments_build rest fun hc => (hplain hc).2) keeps_expression (fun _ _ => rfl)
      fun _ _ hfirst hrest => ⟨hfirst, hrest⟩

theorem selections_build : ∀ (written : List Phrase.SelectItem) (position : Nat)
    {before : Context}, (clean → Phrase.itemsPlain written) → before.Sound schema clean →
      Ends schema before (selections written position) fun values after =>
        before.Extends schema clean (selectionsBound values) after
          ∧ after.levels.roots = before.levels.roots
          ∧ selectionsHold (after.rules schema clean) after.scope values
          ∧ SelectsFrom before after values position
  | [], _, _, _, hsound => ends_pure ⟨.refl hsound, rfl, trivial, fun _ hresult => .inl hresult⟩
  | .mk written alias? :: rest, position, before, hplain, hsound => by
    refine ends_bind (ends_checkVariable (Q := fun _ after => before = after) rfl) ?_
    rintro _ first rfl
    refine ends_bind (selectExpression_builds written (fun hc => (hplain hc).1.2) hsound) ?_
    rintro value first ⟨hfirst, hvalue⟩
    refine ends_bind (ends_bindSelection (Q := fun _ second => first.Extends schema clean [] second
      ∧ second.levels = first.levels
      ∧ first.trail.bindSelection position (.mk value alias?) = .ok second.trail)
      fun trail hbind => ⟨hfirst.sound.selects hbind, rfl, hbind⟩) ?_
    rintro _ second ⟨hsecond, hlevels, hbind⟩
    refine ends_bind (selections_build rest (position + 1) (fun hc => (hplain hc).2)
      hsecond.sound) ?_
    rintro values third ⟨hthird, hroots, hvalues, hselects⟩
    have hall := (hfirst.toExtends.trans hsecond).trans hthird
    rw [List.append_nil] at hall
    have hkept := (hvalue.mono hsecond.rules hsecond.scope).mono hthird.rules hthird.scope
    refine ends_pure ⟨hall, ?_, ⟨hkept, hvalues⟩, hselects.cons hfirst.results hbind⟩
    rw [hroots, hlevels, hfirst.roots]

/-- Result variables are bound one after the other, each in a scope that is still separate. -/
theorem selections_select : ∀ (written : List Phrase.SelectItem) (position : Nat)
    {before : Context}, (clean → Phrase.itemsPlain written) → before.Sound schema clean →
      before.trail.Separate →
      Ends schema before (selections written position) fun values after =>
        Context.Selects clean before values after
  | [], _, _, _, _, _ => ends_pure .nil
  | .mk written alias? :: rest, position, before, hplain, hsound, hseparate => by
    refine ends_bind (ends_checkVariable (Q := fun _ after => before = after) rfl) ?_
    rintro _ first rfl
    refine ends_bind (ends_both
      (selectExpression_builds written (fun hc => (hplain hc).1.2) hsound)
      (selectExpression_ensues written)) ?_
    rintro value first ⟨⟨hfirst, -⟩, hensues⟩
    have hkept := hensues.separate hseparate
    refine ends_bind (ends_bindSelection (Q := fun _ second => second.Sound schema clean
      ∧ first.Ensues Levels.Gathers second
      ∧ first.trail.bindSelection position (.mk value alias?) = .ok second.trail)
      fun trail hbind => ⟨(hfirst.sound.selects hbind).sound, .result rfl hbind, hbind⟩) ?_
    rintro _ second ⟨hsecond, hbound, hbind⟩
    refine ends_bind (ends_both
      (selections_select rest (position + 1) (fun hc => (hplain hc).2) hsecond
        (hbound.separate hkept)) (selections_ensue rest (position + 1))) ?_
    rintro values third ⟨hvalues, hlater⟩
    refine ends_pure (hvalues.cons hfirst.results (fun hc => (hplain hc).1.1) hbind ?_)
    exact (hfirst.sound.suits hkept hbind).ensues (hbound.trans Levels.Gathers.trans hlater)

theorem selectClause_selects : ∀ (written : Option Phrase.SelectClause) {before : Context},
    (clean → Phrase.clausePlain written) → before.Sound schema clean → before.trail.Separate →
      Ends schema before (selectClause written) fun value after =>
        Context.Selects clean before value.2 after
  | none, _, _, _, _ => ends_bind implicitSelection_unnamed fun _ _ h => ends_pure (.unnamed h)
  | some (.mk _ items), _, hplain, hsound, hseparate =>
    ends_bind (selections_select items 0 hplain hsound hseparate) fun _ _ h => ends_pure h

theorem selectClause_builds : ∀ (written : Option Phrase.SelectClause) {before : Context},
    (clean → Phrase.clausePlain written) → before.Sound schema clean →
      Ends schema before (selectClause written) fun value after =>
        before.Extends schema clean (selectionsBound value.2) after
          ∧ after.levels.roots = before.levels.roots
          ∧ selectionsHold (after.rules schema clean) after.scope value.2
          ∧ SelectsFrom before after value.2 0
  | none, _, _, hsound => by
    refine ends_bind (implicitSelection_ends hsound) ?_
    rintro values after h
    exact ends_pure h
  | some (.mk _ items), _, hplain, hsound => by
    refine ends_bind (selections_build items 0 hplain hsound) ?_
    rintro values after h
    exact ends_pure h

theorem join_ends : ∀ (written : Phrase.Join) {before : Context} {id : SpaceId},
    (clean → written.Plain) → before.Sound schema clean →
      id.level + 1 = before.levels.length →
      Ends schema before (join id written) fun _ after => before.Advances schema clean [] after
  | .cross written, before, id, hplain, hsound, hid => by
    refine ends_bind (ends_entity (Q := fun _ after => before = after) fun _ _ => rfl) ?_
    rintro entity first rfl
    refine ends_bind (ends_checkVariable (Q := fun _ after => before = after) rfl) ?_
    rintro _ first rfl
    refine ends_bind (crossJoin_finds hsound hid hplain entity) ?_
    rintro _ after ⟨hadvances, -⟩
    exact ends_pure hadvances
  | .collection path alias?, _, _, hplain, hsound, hid => memberJoin_ends hsound hid path hplain
  | .qualified type fetch target alias? condition, before, id, hplain, hsound, hid => by
    rw [join]
    refine ends_bind (ends_checkVariable (Q := fun _ after => before = after) rfl) ?_
    rintro _ first rfl
    refine ends_bind (ends_comply (Q := fun _ after => before = after) rfl) ?_
    rintro _ first rfl
    refine ends_bind (joinTarget_finds hsound hid target (fun hc => (hplain hc).1) type fetch) ?_
    rintro element first ⟨hfirst, -⟩
    cases condition with
    | none => exact ends_pure hfirst
    | some written =>
      have hcurrent : id.level + 1 = first.levels.length := by
        rw [← hfirst.grow.length_eq]
        exact hid
      have hbuilds : Builds Predicate.boundElements Predicate.Holds schema clean first
          (under (.joinRestriction id) (predicate written)) :=
        under_ends hfirst.sound fun context hcontext =>
          predicate_builds written (fun hc => (hplain hc).2) hcontext
      have hminds : Ends schema first (under (.joinRestriction id) (predicate written))
          fun condition second =>
            ∀ element ∈ condition.ownElements, second.levels.Near id element :=
        ends_under (ends_mono (predicate_minds written (fun hc => (hplain hc).2)
          (hfirst.sound.restricting hcurrent)) fun _ _ h => h.2.2)
      refine ends_bind (Q := fun condition second => _) (fun condition second hrun =>
        And.intro (hbuilds condition second hrun) (hminds condition second hrun)) ?_
      rintro condition second ⟨⟨hsecond, hcondition⟩, hnear⟩
      refine ends_updateSpace fun levels hupdate => ?_
      refine (hfirst.trans hsecond).restricts hcondition hnear ?_ hupdate
      rw [← hsecond.grow.length_eq]
      exact hcurrent

theorem joins_end : ∀ (written : List Phrase.Join) {before : Context} {id : SpaceId},
    (clean → Phrase.joinsPlain written) → before.Sound schema clean →
      id.level + 1 = before.levels.length →
      Ends schema before (joins id written) fun _ after => before.Advances schema clean [] after
  | [], _, _, _, hsound, _ => ends_pure (.refl hsound)
  | first :: rest, _, _, hplain, hsound, hid => by
    refine ends_bind (join_ends first (fun hc => (hplain hc).1) hsound hid) ?_
    rintro _ between hadvances
    refine ends_mono (joins_end rest (fun hc => (hplain hc).2) hadvances.sound ?_) ?_
    · rw [← hadvances.grow.length_eq]
      exact hid
    · rintro _ after hlater
      exact hadvances.trans hlater

theorem space_ends : ∀ (written : Phrase.Space) {before : Context},
    (clean → written.Plain) → before.Sound schema clean →
      Ends schema before (space written) fun _ after =>
        before.Extends schema clean [] after ∧ after.trail.results = before.trail.results
  | .mk written hanging, before, hplain, hsound => by
    refine ends_bind (ends_openSpace (Q := fun id after => before.Extends schema clean [] after
      ∧ after.trail = before.trail ∧ id.level + 1 = after.levels.length) ?_) ?_
    · intro id levels hopen
      obtain ⟨hextends, spaces, below, -, rfl, rfl⟩ := hsound.opensSpace hopen
      exact ⟨hextends, rfl, rfl⟩
    rintro id first ⟨hfirst, htrail, hid⟩
    refine ends_bind (root_ends hfirst.sound hid fun hc => (hplain hc).1) ?_
    rintro element second ⟨hsecond, hresults, -⟩
    refine ends_mono (joins_end hanging (fun hc => (hplain hc).2) hsecond.sound ?_) ?_
    · rw [← hsecond.grow.length_eq]
      exact hid
    · rintro _ third hthird
      refine ⟨(hfirst.trans hsecond).trans hthird.toExtends, ?_⟩
      rw [hthird.results, hresults, htrail]

theorem spaces_end : ∀ (written : List Phrase.Space) {before : Context},
    (clean → Phrase.spacesPlain written) → before.Sound schema clean →
      Ends schema before (spaces written) fun _ after =>
        before.Extends schema clean [] after ∧ after.trail.results = before.trail.results
  | [], _, _, hsound => ends_pure ⟨.refl hsound, rfl⟩
  | first :: rest, _, hplain, hsound => by
    refine ends_bind (space_ends first (fun hc => (hplain hc).1) hsound) ?_
    rintro _ between ⟨hextends, hresults⟩
    refine ends_mono (spaces_end rest (fun hc => (hplain hc).2) hextends.sound) ?_
    rintro _ after ⟨hlater, hkept⟩
    exact ⟨hextends.trans hlater, hkept.trans hresults⟩

theorem sortItem_builds : ∀ (written : Phrase.SortItem) {before : Context},
    (clean → written.Plain) → before.Sound schema clean →
      Ends schema before (sortItem written) fun item after =>
        before.Advances schema clean item.boundElements after
          ∧ item.Holds (after.rules schema clean) after.scope
          ∧ VariablesBound before item.expression
  | .mk written collation ordering, before, hplain, hsound => by
    rw [sortItem]
    have hfinish : ∀ value after, before.Advances schema clean value.boundElements after →
        (value.isVariable = true ∨ value.Holds (after.rules schema clean) after.scope) →
        VariablesBound before value →
        Ends schema after (do
          let order ← ofExcept (sortOrder ordering)
          return SortItem.mk value collation order) fun item last =>
          before.Advances schema clean item.boundElements last
            ∧ item.Holds (last.rules schema clean) last.scope
            ∧ VariablesBound before item.expression := by
      intro value after hadvances hvalue hvariables
      refine ends_bind (ends_ofExcept (Q := fun _ last => after = last) fun _ _ => rfl) ?_
      rintro order last rfl
      exact ends_pure ⟨hadvances, hvalue, hvariables⟩
    refine ends_get_bind ?_
    dsimp only
    split
    · rename_i value hvalue
      obtain ⟨result, hmem, rfl⟩ := resultVariable?_some hvalue
      refine hfinish _ before (.refl hsound) (.inl rfl) fun aliasName position type? hform => ?_
      cases hform
      exact ⟨result, hmem, rfl, rfl, rfl⟩
    · refine ends_bind (expression_builds written hplain hsound) ?_
      rintro value after ⟨hadvances, hvalue⟩
      refine hfinish value after hadvances (.inr hvalue) fun aliasName position type? hform => ?_
      subst hform
      have hnone := holds_not_variable hvalue
      cases hnone

theorem sortItems_build : ∀ (written : List Phrase.SortItem) {before : Context},
    (clean → Phrase.sortItemsPlain written) → before.Sound schema clean →
      Ends schema before (sortItems written) fun items after =>
        before.Advances schema clean (sortItemsBound items) after
          ∧ sortItemsHold (after.rules schema clean) after.scope items
          ∧ ∀ item ∈ items, VariablesBound before item.expression
  | [], _, _, hsound => ends_pure ⟨.refl hsound, trivial, fun _ hitem => by cases hitem⟩
  | first :: rest, _, hplain, hsound => by
    refine ends_bind (sortItem_builds first (fun hc => (hplain hc).1) hsound) ?_
    rintro item between ⟨hadvances, hitem, hvariables⟩
    refine ends_bind (sortItems_build rest (fun hc => (hplain hc).2) hadvances.sound) ?_
    rintro items after ⟨hlater, hitems, hrest⟩
    refine ends_pure ⟨hadvances.trans hlater, ⟨hitem.mono hlater.rules hlater.scope, hitems⟩, ?_⟩
    intro other hother
    rcases List.mem_cons.mp hother with rfl | hother
    · exact hvariables
    · have hbound := hrest other hother
      unfold VariablesBound at hbound
      rw [hadvances.results] at hbound
      exact hbound

theorem order_builds : ∀ (written : Option (List Phrase.SortItem)) {before : Context},
    (clean → Phrase.orderPlain written) → before.Sound schema clean →
      Ends schema before (order written) fun ordering after =>
        before.Advances schema clean (orderBound ordering) after
          ∧ orderHolds (after.rules schema clean) after.scope ordering
          ∧ ∀ items, ordering = some items →
            ∀ item ∈ items, VariablesBound before item.expression
  | none, _, _, hsound => ends_pure ⟨.refl hsound, trivial, fun _ hitems => by cases hitems⟩
  | some written, _, hplain, hsound => by
    refine ends_bind (sortItems_build written hplain hsound) ?_
    rintro items after ⟨hadvances, hitems, hvariables⟩
    refine ends_pure ⟨hadvances, hitems, fun other hother => ?_⟩
    cases hother
    exact hvariables

theorem query_builds : ∀ (written : Phrase.Query) (nested : Bool) {before : Context},
    (clean → written.Plain) → before.Sound schema clean →
      Builds Select.boundElements Select.Holds schema clean before (query written nested)
  | .mk select written condition ordering limit offset, nested, before, hplain, hsound => by
    refine ends_bind (ends_comply (Q := fun _ after => before = after) rfl) ?_
    rintro _ start rfl
    refine ends_bind (ends_comply (Q := fun _ after => before = after) rfl) ?_
    rintro _ start rfl
    refine ends_bind (ends_onLevel (Q := fun value after =>
      before.Advances schema clean (value.1 value.2).boundElements after
        ∧ (value.1 value.2).Holds (after.rules schema clean) after.scope) ?_) ?_
    swap
    · rintro ⟨clauses, spaces⟩ after h
      exact ends_pure h
    refine ends_bind (ends_both
      (spaces_end written (fun hc => (hplain hc).2.1) hsound.openLevel)
      (spaces_separate written List.nodup_nil)) ?_
    rintro _ first ⟨⟨hfirst, hnone⟩, hseparate⟩
    refine ends_bind (ends_both
      (selectClause_builds select (fun hc => (hplain hc).1) hfirst.sound)
      (selectClause_selects select (fun hc => (hplain hc).1) hfirst.sound hseparate)) ?_
    rintro ⟨distinct, selections⟩ second ⟨⟨hsecond, -, hselections, hselects⟩, hnames⟩
    refine ends_bind (ends_both
      (restriction_builds condition (fun hc => (hplain hc).2.2.1) hsecond.sound)
      (restriction_ensues condition)) ?_
    rintro restriction third ⟨⟨hthird, hrestriction⟩, hnamesThird⟩
    refine ends_bind (ends_both
      (order_builds ordering (fun hc => (hplain hc).2.2.2.1) hthird.sound)
      (order_ensues ordering)) ?_
    rintro order fourth ⟨⟨hfourth, horder, hvariables⟩, hnamesFourth⟩
    refine ends_bind (ends_both
      (optional_builds limit (fun hc => (hplain hc).2.2.2.2.1) hfourth.sound)
      (optional_ensues limit)) ?_
    rintro limit fifth ⟨⟨hfifth, hlimit⟩, hnamesFifth⟩
    refine ends_bind (ends_both
      (optional_builds offset (fun hc => (hplain hc).2.2.2.2.2) hfifth.sound)
      (optional_ensues offset)) ?_
    rintro offset sixth ⟨⟨hsixth, hoffset⟩, hnamesSixth⟩
    refine ends_pure fun spaces hclose => ?_
    have hnamesLast := (((hnames.ensues hnamesThird).ensues hnamesFourth).ensues
      hnamesFifth).ensues hnamesSixth
    have hall := ((((hfirst.trans hsecond).trans hthird.toExtends).trans
      hfourth.toExtends).trans hfifth.toExtends).trans hsixth.toExtends
    obtain ⟨hadvances, hscope, hspaces, haliases, hsecluded, htrailing⟩ := hall.leaveLevel hsound hclose
    have hlater := hfifth.trans hsixth
    have hlast := hfourth.trans hlater
    have hmost := hthird.trans hlast
    refine ⟨?_, ⟨?_, haliases, fun hc => hnamesLast.agree hc hsixth.sound hclose rfl rfl,
      hsecluded _ rfl, htrailing⟩, ?_⟩
    · simpa only [Select.boundElements, List.nil_append, List.append_assoc] using hadvances
    · -- A variable of the order was bound by a selection of this query.
      intro items hitems item hitem aliasName position type? hform
      obtain ⟨result, hresult, rfl, rfl, rfl⟩ :=
        hvariables items hitems item hitem aliasName position type? hform
      rw [hthird.results] at hresult
      rcases hselects result hresult with hold | ⟨place, hplace, hposition⟩
      · rw [hnone] at hold
        cases hold
      · refine ⟨result.expression, ?_, rfl⟩
        rw [hposition, Nat.zero_add]
        exact hplace
    · change spacesHold (sixth.rules schema clean) (spaceElements spaces ++ _) spaces ∧ _
      rw [← hscope]
      exact ⟨hspaces, selectionsHold_mono hmost.rules hmost.scope hselections,
        restrictionHolds_mono hlast.rules hlast.scope hrestriction,
        orderHolds_mono hlater.rules hlater.scope horder,
        optionalHolds_mono hsixth.rules hsixth.scope hlimit, hoffset⟩

end

end EntityQuery.Interpretation.Step

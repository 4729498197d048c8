import EntityQuery.Proofs.RenamedCalls

/-!
# Queries with other variables

The meaning of an expression, a predicate or a query with other variables is its meaning with other
variables. The proof follows the phrase: every name that it declares or looks up has to be one that
the renaming is harmless for.

* `Renaming.Allows`: the names that the renaming is harmless for, where they occur.
* `Step.expression_renamed`, `Step.predicate_renamed`, `Step.query_renamed`.
-/

namespace EntityQuery

open Interpretation
open Phrase (Occurrence)
open Resolved (Expression Predicate)

variable {schema : Schema} {ρ : Renaming schema}

/-! ## Names that may occur -/

/-- Declared names have no points and are admitted; names that are looked up are admitted. -/
def Renaming.Allows (ρ : Renaming schema) : Occurrence → Prop
  | .declared name => ρ.Bound name
  | .used name => ρ.admits name

namespace Phrase

theorem pathOccurrences_allowed {path : DottedName}
    (h : ∀ occurrence ∈ pathOccurrences path, ρ.Allows occurrence) :
    ∀ name ∈ path.parts.head?, ρ.admits name := by
  intro name hname
  exact h (.used name) (List.mem_map_of_mem (Option.mem_toList.mpr hname))

theorem aliasOccurrences_allowed {alias? : Option String}
    (h : ∀ occurrence ∈ aliasOccurrences alias?, ρ.Allows occurrence) :
    ∀ name ∈ alias?, ρ.Bound name := by
  intro name hname
  exact h (.declared name) (List.mem_map_of_mem (Option.mem_toList.mpr hname))

end Phrase

namespace Interpretation.Step

/-- A step that builds something, and the step that builds it with other variables. -/
abbrev Renames {α : Type} (ρ : Renaming schema) (renamed : α → α) : Step α → Step α → Prop :=
  Corresponds ρ fun value value' => value' = renamed value

theorem renames_bind {α β : Type} {renamed : α → α} {renamed' : β → β} {first first' : Step α}
    {second second' : α → Step β} (hfirst : Renames ρ renamed first first')
    (hsecond : ∀ value, Renames ρ renamed' (second value) (second' (renamed value))) :
    Renames ρ renamed' (first >>= second) (first' >>= second') :=
  corresponds_bind hfirst fun value _ hvalue => hvalue ▸ hsecond value

/-! ## Trees -/

mutual

theorem expression_renamed : ∀ written : Phrase.Expression,
    (∀ occurrence ∈ written.occurrences, ρ.Allows occurrence) →
    Renames ρ (Expression.renamed ρ.rename) (expression written)
      (expression (written.renamed ρ.rename))
  | .literal token, _ => literal_renamed token
  | .parameter written, _ => parameter_renamed written
  | .path _, h => pathOrCall_renamed (Phrase.pathOccurrences_allowed h)
  | .indexed base index remainder, h => by
    simp only [Phrase.Expression.occurrences, List.forall_mem_append] at h
    refine renames_bind (expression_renamed index h.2) fun index => ?_
    exact indexed_renamed (Phrase.pathOccurrences_allowed h.1) index remainder
  | .treated _ entity remainder, h =>
    treated_renamed (Phrase.pathOccurrences_allowed h) entity remainder
  | .mapFunction function _, h => mapEntry_renamed function (Phrase.pathOccurrences_allowed h)
  | .arithmetic operator [left, right], h => by
    simp only [Phrase.Expression.occurrences, Phrase.expressionsOccurrences,
      List.forall_mem_append] at h
    refine renames_bind (expression_renamed left h.1) fun left => ?_
    refine renames_bind (expression_renamed right h.2.1) fun right => ?_
    exact corresponds_pure (arithmetic_renamed ρ.rename operator left right)
  | .arithmetic _ [], _ => corresponds_throw rfl
  | .arithmetic _ [_], _ => corresponds_throw rfl
  | .arithmetic _ (_ :: _ :: _ :: _), _ => corresponds_throw rfl
  | .concatenation [left, right], h => by
    simp only [Phrase.Expression.occurrences, Phrase.expressionsOccurrences,
      List.forall_mem_append] at h
    refine renames_bind (expression_renamed left h.1) fun left => ?_
    refine renames_bind (expression_renamed right h.2.1) fun right => ?_
    exact corresponds_pure rfl
  | .concatenation [], _ => corresponds_throw rfl
  | .concatenation [_], _ => corresponds_throw rfl
  | .concatenation (_ :: _ :: _ :: _), _ => corresponds_throw rfl
  | .unary sign operand, h =>
    renames_bind (expression_renamed operand h) fun _ => corresponds_pure rfl
  | .grouped inner, h => expression_renamed inner h
  | .call name generic distinct star arguments, h => by
    simp only [Phrase.Expression.renamed, expression]
    split
    · rename_i function hfunction
      refine corresponds_bind (announceCollectionFunction_renamed function) fun _ _ _ => ?_
      match arguments, h with
      | [], _ => exact corresponds_throw rfl
      | [argument], h =>
        have hargument : ∀ occurrence ∈ argument.occurrences, ρ.Allows occurrence :=
          fun occurrence hoccurrence => h occurrence (List.mem_append_left _ hoccurrence)
        simp only [Phrase.expressionsRenamed]
        split
        · refine indexOfJoin_renamed fun dotted hdotted => ?_
          rw [hdotted] at hargument
          exact Phrase.pathOccurrences_allowed hargument
        · exact renames_bind (expression_renamed argument hargument) fun value =>
            collectionFunction_renamed function value
      | _ :: _ :: _, _ => exact corresponds_throw rfl
    · refine corresponds_bind (announceCall_renamed _ _ _) fun _ _ _ => ?_
      refine renames_bind (expressions_renamed arguments h) fun values => ?_
      exact corresponds_pure (call_renamed ρ.rename name distinct star _ values)
  | .simpleCase operand whens otherwise, h => by
    simp only [Phrase.Expression.occurrences, List.forall_mem_append] at h
    refine renames_bind (expression_renamed operand h.1.1) fun operand => ?_
    refine renames_bind (simpleWhens_renamed whens h.1.2) fun whens => ?_
    refine renames_bind (optional_renamed otherwise h.2) fun otherwise => corresponds_pure ?_
    rw [Resolved.simpleResults_renamed, Resolved.caseType?_renamed]
    rfl
  | .searchedCase whens otherwise, h => by
    simp only [Phrase.Expression.occurrences, List.forall_mem_append] at h
    refine renames_bind (searchedWhens_renamed whens h.1) fun whens => ?_
    refine renames_bind (optional_renamed otherwise h.2) fun otherwise => corresponds_pure ?_
    rw [Resolved.searchedResults_renamed, Resolved.caseType?_renamed]
    rfl
  | .subquery nested, h =>
    renames_bind (query_renamed nested true h) fun select =>
      corresponds_pure (congrArg Expression.subquery (Resolved.Subquery.ofSelect_renamed select))

theorem expressions_renamed : ∀ written : List Phrase.Expression,
    (∀ occurrence ∈ Phrase.expressionsOccurrences written, ρ.Allows occurrence) →
    Renames ρ (Resolved.expressionsRenamed ρ.rename) (expressions written)
      (expressions (Phrase.expressionsRenamed ρ.rename written))
  | [], _ => corresponds_pure rfl
  | first :: rest, h => by
    simp only [Phrase.expressionsOccurrences, List.forall_mem_append] at h
    refine renames_bind (expression_renamed first h.1) fun first => ?_
    exact renames_bind (expressions_renamed rest h.2) fun _ => corresponds_pure rfl

theorem optional_renamed : ∀ written : Option Phrase.Expression,
    (∀ occurrence ∈ Phrase.optionalOccurrences written, ρ.Allows occurrence) →
    Renames ρ (Resolved.optionalRenamed ρ.rename) (optional written)
      (optional (Phrase.optionalRenamed ρ.rename written))
  | none, _ => corresponds_pure rfl
  | some written, h =>
    renames_bind (expression_renamed written h) fun _ => corresponds_pure rfl

theorem simpleWhen_renamed : ∀ written : Phrase.SimpleWhen,
    (∀ occurrence ∈ written.occurrences, ρ.Allows occurrence) →
    Renames ρ (Resolved.SimpleWhen.renamed ρ.rename) (simpleWhen written)
      (simpleWhen (written.renamed ρ.rename))
  | .mk value result, h => by
    simp only [Phrase.SimpleWhen.occurrences, List.forall_mem_append] at h
    refine renames_bind (expression_renamed value h.1) fun value => ?_
    exact renames_bind (expression_renamed result h.2) fun _ => corresponds_pure rfl

theorem simpleWhens_renamed : ∀ written : List Phrase.SimpleWhen,
    (∀ occurrence ∈ Phrase.simpleWhensOccurrences written, ρ.Allows occurrence) →
    Renames ρ (Resolved.simpleWhensRenamed ρ.rename) (simpleWhens written)
      (simpleWhens (Phrase.simpleWhensRenamed ρ.rename written))
  | [], _ => corresponds_pure rfl
  | first :: rest, h => by
    simp only [Phrase.simpleWhensOccurrences, List.forall_mem_append] at h
    refine renames_bind (simpleWhen_renamed first h.1) fun first => ?_
    exact renames_bind (simpleWhens_renamed rest h.2) fun _ => corresponds_pure rfl

theorem searchedWhen_renamed : ∀ written : Phrase.SearchedWhen,
    (∀ occurrence ∈ written.occurrences, ρ.Allows occurrence) →
    Renames ρ (Resolved.SearchedWhen.renamed ρ.rename) (searchedWhen written)
      (searchedWhen (written.renamed ρ.rename))
  | .mk condition result, h => by
    simp only [Phrase.SearchedWhen.occurrences, List.forall_mem_append] at h
    refine renames_bind (predicate_renamed condition h.1) fun condition => ?_
    exact renames_bind (expression_renamed result h.2) fun _ => corresponds_pure rfl

theorem searchedWhens_renamed : ∀ written : List Phrase.SearchedWhen,
    (∀ occurrence ∈ Phrase.searchedWhensOccurrences written, ρ.Allows occurrence) →
    Renames ρ (Resolved.searchedWhensRenamed ρ.rename) (searchedWhens written)
      (searchedWhens (Phrase.searchedWhensRenamed ρ.rename written))
  | [], _ => corresponds_pure rfl
  | first :: rest, h => by
    simp only [Phrase.searchedWhensOccurrences, List.forall_mem_append] at h
    refine renames_bind (searchedWhen_renamed first h.1) fun first => ?_
    exact renames_bind (searchedWhens_renamed rest h.2) fun _ => corresponds_pure rfl

theorem predicate_renamed : ∀ written : Phrase.Predicate,
    (∀ occurrence ∈ written.occurrences, ρ.Allows occurrence) →
    Renames ρ (Predicate.renamed ρ.rename) (predicate written)
      (predicate (written.renamed ρ.rename))
  | .and left right, h => by
    simp only [Phrase.Predicate.occurrences, List.forall_mem_append] at h
    refine renames_bind (predicate_renamed left h.1) fun left => ?_
    exact renames_bind (predicate_renamed right h.2) fun _ => corresponds_pure rfl
  | .or left right, h => by
    simp only [Phrase.Predicate.occurrences, List.forall_mem_append] at h
    refine renames_bind (predicate_renamed left h.1) fun left => ?_
    exact renames_bind (predicate_renamed right h.2) fun _ => corresponds_pure rfl
  | .not inner, h => renames_bind (predicate_renamed inner h) fun _ => corresponds_pure rfl
  | .grouped inner, h => renames_bind (predicate_renamed inner h) fun _ => corresponds_pure rfl
  | .comparison operator left right, h => by
    simp only [Phrase.Predicate.occurrences, List.forall_mem_append] at h
    refine renames_bind (expression_renamed left h.1) fun left => ?_
    exact renames_bind (expression_renamed right h.2) fun _ => corresponds_pure rfl
  | .between tested lower upper negated, h => by
    simp only [Phrase.Predicate.occurrences, List.forall_mem_append] at h
    refine renames_bind (expression_renamed tested h.1.1) fun tested => ?_
    refine renames_bind (expression_renamed lower h.1.2) fun lower => ?_
    exact renames_bind (expression_renamed upper h.2) fun _ => corresponds_pure rfl
  | .like matched pattern escape negated, h => by
    simp only [Phrase.Predicate.occurrences, List.forall_mem_append] at h
    refine renames_bind (expression_renamed matched h.1.1) fun matched => ?_
    refine renames_bind (expression_renamed pattern h.1.2) fun pattern => ?_
    exact renames_bind (optional_renamed escape h.2) fun _ => corresponds_pure rfl
  | .inList tested items negated, h => by
    simp only [Phrase.Predicate.occurrences, List.forall_mem_append] at h
    refine renames_bind (expression_renamed tested h.1) fun tested => ?_
    exact renames_bind (expressions_renamed items h.2) fun _ => corresponds_pure rfl
  | .inSubquery tested operand negated, h => by
    simp only [Phrase.Predicate.occurrences, List.forall_mem_append] at h
    have htested := expression_renamed tested h.1
    cases operand with
    | subquery nested =>
      refine renames_bind htested fun tested => ?_
      refine renames_bind (query_renamed nested true h.2) fun select => ?_
      refine corresponds_pure ?_
      rw [Resolved.Subquery.ofSelect_renamed]
      rfl
    | _ => exact renames_bind htested fun _ => corresponds_throw rfl
  | .isNull tested negated, h =>
    renames_bind (expression_renamed tested h) fun _ => corresponds_pure rfl
  | .isEmpty tested negated, h => by
    refine renames_bind (expression_renamed tested h) fun collection => ?_
    exact renames_bind (pluralOperand_renamed .isEmpty collection) fun _ => corresponds_pure rfl
  | .memberOf element collection negated, h => by
    simp only [Phrase.Predicate.occurrences, List.forall_mem_append] at h
    refine renames_bind (expression_renamed element h.1) fun element => ?_
    refine renames_bind (pluralOperand_renamed .memberOf element) fun plural => ?_
    exact renames_bind (expression_renamed collection h.2) fun _ => corresponds_pure rfl
  | .existence operand negated, h => by
    cases operand with
    | subquery nested =>
      refine renames_bind (query_renamed nested true h) fun select => corresponds_pure ?_
      rw [Resolved.Subquery.ofSelect_renamed]
      rfl
    | _ => exact corresponds_throw rfl

theorem restriction_renamed : ∀ written : Option Phrase.Predicate,
    (∀ occurrence ∈ Phrase.restrictionOccurrences written, ρ.Allows occurrence) →
    Renames ρ (Resolved.restrictionRenamed ρ.rename) (restriction written)
      (restriction (Phrase.restrictionRenamed ρ.rename written))
  | none, _ => corresponds_pure rfl
  | some written, h =>
    renames_bind (predicate_renamed written h) fun _ => corresponds_pure rfl

theorem selectExpression_renamed : ∀ written : Phrase.SelectExpression,
    (∀ occurrence ∈ written.occurrences, ρ.Allows occurrence) →
    Renames ρ (Expression.renamed ρ.rename) (selectExpression written)
      (selectExpression (written.renamed ρ.rename))
  | .instantiation target items, h => by
    refine corresponds_bind (instantiationTarget_renamed target items) ?_
    rintro made _ rfl
    exact renames_bind (arguments_renamed items h) fun _ => corresponds_pure rfl
  | .object name, h => by
    refine corresponds_bind (identificationVariable_renamed (h (.used name)
      (List.mem_singleton_self _))) ?_
    rintro element _ ⟨rfl, -⟩
    exact corresponds_pure rfl
  | .expression written, h => expression_renamed written h

theorem arguments_renamed : ∀ written : List Phrase.SelectItem,
    (∀ occurrence ∈ Phrase.argumentsOccurrences written, ρ.Allows occurrence) →
    Renames ρ (Resolved.argumentsRenamed ρ.rename) (arguments written)
      (arguments (Phrase.argumentsRenamed ρ.rename written))
  | [], _ => corresponds_pure rfl
  | .mk written alias? :: rest, h => by
    simp only [Phrase.argumentsOccurrences, List.forall_mem_append] at h
    refine renames_bind (selectExpression_renamed written h.1) fun value => ?_
    exact renames_bind (arguments_renamed rest h.2) fun _ => corresponds_pure rfl

theorem selections_renamed : ∀ (written : List Phrase.SelectItem) (position : Nat),
    (∀ occurrence ∈ Phrase.selectionsOccurrences written, ρ.Allows occurrence) →
    Renames ρ (Resolved.selectionsRenamed ρ.rename) (selections written position)
      (selections (Phrase.selectionsRenamed ρ.rename written) position)
  | [], _, _ => corresponds_pure rfl
  | .mk written alias? :: rest, position, h => by
    simp only [Phrase.selectionsOccurrences, List.forall_mem_append] at h
    have hname : ∀ name ∈ alias?, ρ.Bound name := Phrase.aliasOccurrences_allowed h.1.1
    refine corresponds_bind (checkVariable_renamed alias?) fun _ _ _ => ?_
    refine renames_bind (selectExpression_renamed written h.1.2) fun value => ?_
    have hbind : Corresponds ρ (fun _ _ => True) (bindSelection position (.mk value alias?))
        (bindSelection position ((Resolved.Selection.mk value alias?).renamed ρ.rename)) :=
      corresponds_bindSelection position fun name h => (hname name h).1
    refine corresponds_bind hbind fun _ _ _ => ?_
    exact renames_bind (selections_renamed rest (position + 1) h.2) fun _ => corresponds_pure rfl

theorem selectClause_renamed : ∀ written : Option Phrase.SelectClause,
    (∀ occurrence ∈ Phrase.clauseOccurrences written, ρ.Allows occurrence) →
    Renames ρ (fun selected => (selected.1, Resolved.selectionsRenamed ρ.rename selected.2))
      (selectClause written) (selectClause (Phrase.clauseRenamed ρ.rename written))
  | none, _ => renames_bind implicitSelection_renamed fun _ => corresponds_pure rfl
  | some (.mk _ items), h =>
    renames_bind (selections_renamed items 0 h) fun _ => corresponds_pure rfl

theorem join_renamed (id : SpaceId) : ∀ written : Phrase.Join,
    (∀ occurrence ∈ written.occurrences, ρ.Allows occurrence) →
    Corresponds ρ (fun _ _ => True) (join id written) (join id (written.renamed ρ.rename))
  | .cross written, h => by
    refine corresponds_bind (entity_corresponds rfl) ?_
    rintro _ joined ⟨rfl, hjoined⟩
    refine corresponds_bind (checkVariable_renamed written.alias?) fun _ _ _ => ?_
    exact corresponds_bind (crossJoin_renamed id hjoined (Phrase.aliasOccurrences_allowed h))
      fun _ _ _ => corresponds_pure trivial
  | .collection path alias?, h => by
    simp only [Phrase.Join.occurrences, List.forall_mem_append] at h
    exact memberJoin_renamed id (Phrase.pathOccurrences_allowed h.1)
      (Phrase.aliasOccurrences_allowed h.2)
  | .qualified type fetch target alias? condition, h => by
    simp only [Phrase.Join.occurrences, List.forall_mem_append] at h
    rw [Phrase.Join.renamed, join, join, Option.isSome_map]
    refine corresponds_bind (checkVariable_renamed alias?) fun _ _ _ => ?_
    refine corresponds_bind (corresponds_comply _ rfl) fun _ _ _ => ?_
    refine corresponds_bind (joinTarget_renamed id (Phrase.pathOccurrences_allowed h.1.1)
      (Phrase.aliasOccurrences_allowed h.1.2) type fetch) ?_
    rintro element _ ⟨rfl, -⟩
    cases condition with
    | none => exact corresponds_pure trivial
    | some written =>
      refine corresponds_bind (corresponds_under (.joinRestriction id)
        (predicate_renamed written h.2)) ?_
      rintro condition _ rfl
      rw [FromElement.uid_renamed]
      exact corresponds_updateSpace id fun space =>
        .ok (space.restrict_renamed element.uid condition)

theorem joins_renamed (id : SpaceId) : ∀ written : List Phrase.Join,
    (∀ occurrence ∈ Phrase.joinsOccurrences written, ρ.Allows occurrence) →
    Corresponds ρ (fun _ _ => True) (joins id written)
      (joins id (Phrase.joinsRenamed ρ.rename written))
  | [], _ => corresponds_pure trivial
  | first :: rest, h => by
    simp only [Phrase.joinsOccurrences, List.forall_mem_append] at h
    exact corresponds_bind (join_renamed id first h.1) fun _ _ _ => joins_renamed id rest h.2

theorem space_renamed : ∀ written : Phrase.Space,
    (∀ occurrence ∈ written.occurrences, ρ.Allows occurrence) →
    Corresponds ρ (fun _ _ => True) (space written) (space (written.renamed ρ.rename))
  | .mk written hanging, h => by
    simp only [Phrase.Space.occurrences, List.forall_mem_append] at h
    refine corresponds_bind corresponds_openSpace ?_
    rintro id _ rfl
    exact corresponds_bind (root_renamed id (Phrase.aliasOccurrences_allowed h.1))
      fun _ _ _ => joins_renamed id hanging h.2

theorem spaces_renamed : ∀ written : List Phrase.Space,
    (∀ occurrence ∈ Phrase.spacesOccurrences written, ρ.Allows occurrence) →
    Corresponds ρ (fun _ _ => True) (spaces written)
      (spaces (Phrase.spacesRenamed ρ.rename written))
  | [], _ => corresponds_pure trivial
  | first :: rest, h => by
    simp only [Phrase.spacesOccurrences, List.forall_mem_append] at h
    exact corresponds_bind (space_renamed first h.1) fun _ _ _ => spaces_renamed rest h.2

/-- A result variable is preferred before and after. -/
theorem sortItem_renamed : ∀ written : Phrase.SortItem,
    (∀ occurrence ∈ written.occurrences, ρ.Allows occurrence) →
    Renames ρ (Resolved.SortItem.renamed ρ.rename) (sortItem written)
      (sortItem (written.renamed ρ.rename))
  | .mk written collation ordering, h => by
    have hvalue := expression_renamed written h
    simp only [Phrase.SortItem.renamed, sortItem]
    refine corresponds_get_bind fun context advisories hfits => ?_
    have hresult : resultVariable? (context.renamed ρ.rename advisories).trail
          (written.renamed ρ.rename)
        = (resultVariable? context.trail written).map (Expression.renamed ρ.rename) := by
      refine resultVariable?_renamed hfits.trail fun dotted hdotted => ?_
      subst hdotted
      exact Phrase.pathOccurrences_allowed h
    rw [hresult]
    have hordered : ∀ value, Renames ρ (Resolved.SortItem.renamed ρ.rename)
        (do
          let order ← ofExcept (sortOrder ordering)
          return .mk value collation order)
        (do
          let order ← ofExcept (sortOrder ordering)
          return .mk (value.renamed ρ.rename) collation order) := by
      intro value
      refine corresponds_bind (corresponds_check _) ?_
      rintro order _ rfl
      exact corresponds_pure rfl
    cases resultVariable? context.trail written with
    | none => exact renames_bind hvalue hordered
    | some result => exact hordered result

theorem sortItems_renamed : ∀ written : List Phrase.SortItem,
    (∀ occurrence ∈ Phrase.sortItemsOccurrences written, ρ.Allows occurrence) →
    Renames ρ (Resolved.sortItemsRenamed ρ.rename) (sortItems written)
      (sortItems (Phrase.sortItemsRenamed ρ.rename written))
  | [], _ => corresponds_pure rfl
  | first :: rest, h => by
    simp only [Phrase.sortItemsOccurrences, List.forall_mem_append] at h
    refine renames_bind (sortItem_renamed first h.1) fun first => ?_
    exact renames_bind (sortItems_renamed rest h.2) fun _ => corresponds_pure rfl

theorem order_renamed : ∀ written : Option (List Phrase.SortItem),
    (∀ occurrence ∈ Phrase.orderOccurrences written, ρ.Allows occurrence) →
    Renames ρ (Resolved.orderRenamed ρ.rename) (order written)
      (order (Phrase.orderRenamed ρ.rename written))
  | none, _ => corresponds_pure rfl
  | some items, h => renames_bind (sortItems_renamed items h) fun _ => corresponds_pure rfl

theorem query_renamed : ∀ (written : Phrase.Query) (nested : Bool),
    (∀ occurrence ∈ written.occurrences, ρ.Allows occurrence) →
    Renames ρ (Resolved.Select.renamed ρ.rename) (query written nested)
      (query (written.renamed ρ.rename) nested)
  | .mk select written condition ordering limit offset, nested, h => by
    simp only [Phrase.Query.occurrences, List.forall_mem_append] at h
    obtain ⟨⟨⟨⟨⟨hselect, hwritten⟩, hcondition⟩, hordering⟩, hlimit⟩, hoffset⟩ := h
    have hordered : (Phrase.orderRenamed ρ.rename ordering).isSome = ordering.isSome := by
      cases ordering <;> rfl
    have hoptional : ∀ written : Option Phrase.Expression,
        (Phrase.optionalRenamed ρ.rename written).isSome = written.isSome := by
      intro written
      cases written <;> rfl
    simp only [Phrase.Query.renamed, query, hordered, hoptional]
    refine corresponds_bind (corresponds_comply _ rfl) fun _ _ _ => ?_
    refine corresponds_bind (corresponds_comply _ rfl) fun _ _ _ => ?_
    refine corresponds_bind (corresponds_onLevel (R := fun clauses clauses' => ∀ spaces,
      clauses' (Resolved.spacesRenamed ρ.rename spaces)
        = (clauses spaces).renamed ρ.rename) ?_) ?_
    · refine corresponds_bind (spaces_renamed written hwritten) fun _ _ _ => ?_
      refine corresponds_bind (selectClause_renamed select hselect) ?_
      rintro ⟨distinct, selected⟩ _ rfl
      refine corresponds_bind (restriction_renamed condition hcondition) ?_
      rintro condition _ rfl
      refine corresponds_bind (order_renamed ordering hordering) ?_
      rintro ordering _ rfl
      refine corresponds_bind (optional_renamed limit hlimit) ?_
      rintro limit _ rfl
      refine corresponds_bind (optional_renamed offset hoffset) ?_
      rintro offset _ rfl
      exact corresponds_pure fun _ => rfl
    · rintro ⟨clauses, spaces⟩ ⟨clauses', _⟩ ⟨hclauses, rfl⟩
      exact corresponds_pure (hclauses spaces)

end

end Interpretation.Step
end EntityQuery

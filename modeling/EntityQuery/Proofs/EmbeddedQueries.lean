import EntityQuery.Proofs.EmbeddedCalls
import EntityQuery.Proofs.MovedQueries

/-!
# An embedded query

The meaning that a query has alone it has within another query as well, under later numbers and
variables. The proof follows the phrase; each part of the query is interpreted in a state that is
made of the state around the query and of the state that the query has alone.

* `Context.Admits`: the names of a query that the state around it does not interfere with.
* `Phrase.Query.MappedRoots`: queries without polymorphic roots.
* `Step.expression_embeds`, `Step.predicate_embeds`, `Step.query_embeds`.
-/

namespace EntityQuery

open Interpretation
open Phrase (Occurrence)
open Resolved (Expression Predicate)

variable {schema : Schema} {around : Context}

/-! ## Names and roots -/

/-- No name looks like a made-up variable, and those that are used stand for nothing around. -/
def Interpretation.Context.Admits (around : Context) : Occurrence → Prop
  | .declared name => PlainName name
  | .used name => around.Ignores name

namespace Phrase

theorem pathOccurrences_admitted {path : DottedName}
    (h : ∀ occurrence ∈ pathOccurrences path, around.Admits occurrence) :
    ∀ name ∈ path.parts.head?, around.Ignores name := by
  intro name hname
  exact h (.used name) (List.mem_map_of_mem (Option.mem_toList.mpr hname))

theorem aliasOccurrences_admitted {alias? : Option String}
    (h : ∀ occurrence ∈ aliasOccurrences alias?, around.Admits occurrence) :
    ∀ name ∈ alias?, PlainName name := by
  intro name hname
  exact h (.declared name) (List.mem_map_of_mem (Option.mem_toList.mpr hname))

/-- The root of the space is no polymorphic entity. -/
def Space.MappedRoot (schema : Schema) : Space → Prop
  | .mk root _ => ∀ entity, schema.entity? root.entity.text = some entity →
    entity.isPolymorphic = false

/-- No root of the query is a polymorphic entity. -/
def Query.MappedRoots (schema : Schema) : Query → Prop
  | .mk _ spaces _ _ _ _ => ∀ space ∈ spaces, space.MappedRoot schema

end Phrase

namespace Interpretation.Step

/-- Within a level, a query is a nested one. -/
theorem nested_embeds {written : Phrase.Query} {nested nested' : Bool}
    (h : ∀ {before : Context}, before.openLevel.Inside →
      (before.levels = [] → written.MappedRoots schema) →
      EmbedsAt schema around
        (fun select select' => select' = select.rebuilt false (FromElement.embedded around)) before
        (query written nested) (query written nested')) :
    Embeds schema around (Resolved.Select.rebuilt false (FromElement.embedded around))
      (query written nested) (query written nested') :=
  fun _ hinside => h hinside.openLevel fun hnil => absurd hnil hinside.levels

theorem ofSelect_embedded (select : Resolved.Select) :
    Resolved.Subquery.ofSelect (select.rebuilt false (FromElement.embedded around))
      = (Resolved.Subquery.ofSelect select).rebuilt false (FromElement.embedded around) := by
  rw [Resolved.Subquery.ofSelect, Resolved.Select.selectionType?_rebuilt
    fun _ => FromElement.type_embedded, Resolved.Subquery.ofSelect, Resolved.Subquery.rebuilt_mk]
  rfl

theorem simpleResults_embedded (whens : List Resolved.SimpleWhen) :
    (whens.map (Resolved.SimpleWhen.rebuilt false (FromElement.embedded around))).map
        Resolved.SimpleWhen.result
      = (whens.map Resolved.SimpleWhen.result).map
        (Expression.rebuilt false (FromElement.embedded around)) := by
  rw [List.map_map, List.map_map]
  refine List.map_congr_left fun one _ => ?_
  cases one
  rfl

theorem searchedResults_embedded (whens : List Resolved.SearchedWhen) :
    (whens.map (Resolved.SearchedWhen.rebuilt false (FromElement.embedded around))).map
        Resolved.SearchedWhen.result
      = (whens.map Resolved.SearchedWhen.result).map
        (Expression.rebuilt false (FromElement.embedded around)) := by
  rw [List.map_map, List.map_map]
  refine List.map_congr_left fun one _ => ?_
  cases one
  rfl

/-! ## Trees -/

section

-- The linter does not see that the members of a mutual block use a hypothesis through each other.
set_option linter.unusedSectionVars false

variable (hlenient : schema.strict = false) (haround : around.Numbered)
include hlenient haround

mutual

theorem expression_embeds : ∀ written : Phrase.Expression,
    (∀ occurrence ∈ written.occurrences, around.Admits occurrence) →
    Embeds schema around (Expression.rebuilt false (FromElement.embedded around))
      (expression written) (expression written)
  | .literal token, _ => literal_embeds token
  | .parameter written, _ => parameter_embeds written
  | .path _, h => pathOrCall_embeds haround (Phrase.pathOccurrences_admitted h)
  | .indexed base index remainder, h => by
    simp only [Phrase.Expression.occurrences, List.forall_mem_append] at h
    refine embeds_bind (expression_embeds index h.2) fun index => ?_
    exact indexed_embeds haround (Phrase.pathOccurrences_admitted h.1) index remainder
  | .treated _ entity remainder, h =>
    treated_embeds haround (Phrase.pathOccurrences_admitted h) entity remainder
  | .mapFunction function _, h =>
    mapEntry_embeds hlenient haround function (Phrase.pathOccurrences_admitted h)
  | .arithmetic operator [left, right], h => by
    simp only [Phrase.Expression.occurrences, Phrase.expressionsOccurrences,
      List.forall_mem_append] at h
    refine embeds_bind (expression_embeds left h.1) fun left => ?_
    refine embeds_bind (expression_embeds right h.2.1) fun right => ?_
    exact embeds_pure (arithmetic_embedded operator left right)
  | .arithmetic _ [], _ => embeds_throw _ _
  | .arithmetic _ [_], _ => embeds_throw _ _
  | .arithmetic _ (_ :: _ :: _ :: _), _ => embeds_throw _ _
  | .concatenation [left, right], h => by
    simp only [Phrase.Expression.occurrences, Phrase.expressionsOccurrences,
      List.forall_mem_append] at h
    refine embeds_bind (expression_embeds left h.1) fun left => ?_
    refine embeds_bind (expression_embeds right h.2.1) fun right => ?_
    exact embeds_pure (Expression.rebuilt_concatenation left right).symm
  | .concatenation [], _ => embeds_throw _ _
  | .concatenation [_], _ => embeds_throw _ _
  | .concatenation (_ :: _ :: _ :: _), _ => embeds_throw _ _
  | .unary sign operand, h =>
    embeds_bind (expression_embeds operand h) fun operand =>
      embeds_pure (Expression.rebuilt_unary sign operand).symm
  | .grouped inner, h => expression_embeds inner h
  | .call name generic distinct star arguments, h => by
    simp only [expression]
    split
    · rename_i function hfunction
      refine embeds_bind (announceCollectionFunction_embeds hlenient function) fun _ => ?_
      match arguments, h with
      | [], _ => exact embeds_throw _ _
      | [argument], h =>
        have hargument : ∀ occurrence ∈ argument.occurrences, around.Admits occurrence :=
          fun occurrence hoccurrence => h occurrence (List.mem_append_left _ hoccurrence)
        dsimp only
        split
        · refine indexOfJoin_embeds haround fun dotted hdotted => ?_
          rw [hdotted] at hargument
          exact Phrase.pathOccurrences_admitted hargument
        · exact embeds_bind (expression_embeds argument hargument) fun value =>
            collectionFunction_embeds function value
      | _ :: _ :: _, _ => exact embeds_throw _ _
    · refine embeds_bind (announceCall_embeds hlenient _ _ _) fun _ => ?_
      refine embeds_bind (expressions_embed arguments h) fun values => ?_
      exact embeds_pure (call_embedded name distinct star _ values)
  | .simpleCase operand whens otherwise, h => by
    simp only [Phrase.Expression.occurrences, List.forall_mem_append] at h
    refine embeds_bind (expression_embeds operand h.1.1) fun operand => ?_
    refine embeds_bind (simpleWhens_embed whens h.1.2) fun whens => ?_
    refine embeds_bind (optional_embeds otherwise h.2) fun otherwise => embeds_pure ?_
    rw [simpleResults_embedded, Resolved.caseType?_rebuilt fun _ => FromElement.type_embedded,
      Expression.rebuilt_simpleCase]
    rfl
  | .searchedCase whens otherwise, h => by
    simp only [Phrase.Expression.occurrences, List.forall_mem_append] at h
    refine embeds_bind (searchedWhens_embed whens h.1) fun whens => ?_
    refine embeds_bind (optional_embeds otherwise h.2) fun otherwise => embeds_pure ?_
    rw [searchedResults_embedded, Resolved.caseType?_rebuilt fun _ => FromElement.type_embedded,
      Expression.rebuilt_searchedCase]
    rfl
  | .subquery nested, h => by
    refine embeds_bind (nested_embeds fun hinside hmapped =>
      query_embeds nested true hinside hmapped h) fun select => embeds_pure ?_
    rw [ofSelect_embedded, Expression.rebuilt_subquery]

theorem expressions_embed : ∀ written : List Phrase.Expression,
    (∀ occurrence ∈ Phrase.expressionsOccurrences written, around.Admits occurrence) →
    Embeds schema around (List.map (Expression.rebuilt false (FromElement.embedded around)))
      (expressions written) (expressions written)
  | [], _ => embeds_pure rfl
  | first :: rest, h => by
    simp only [Phrase.expressionsOccurrences, List.forall_mem_append] at h
    refine embeds_bind (expression_embeds first h.1) fun first => ?_
    exact embeds_bind (expressions_embed rest h.2) fun _ => embeds_pure rfl

theorem optional_embeds : ∀ written : Option Phrase.Expression,
    (∀ occurrence ∈ Phrase.optionalOccurrences written, around.Admits occurrence) →
    Embeds schema around (Option.map (Expression.rebuilt false (FromElement.embedded around)))
      (optional written) (optional written)
  | none, _ => embeds_pure rfl
  | some written, h => embeds_bind (expression_embeds written h) fun _ => embeds_pure rfl

theorem simpleWhen_embeds : ∀ written : Phrase.SimpleWhen,
    (∀ occurrence ∈ written.occurrences, around.Admits occurrence) →
    Embeds schema around (Resolved.SimpleWhen.rebuilt false (FromElement.embedded around))
      (simpleWhen written) (simpleWhen written)
  | .mk value result, h => by
    simp only [Phrase.SimpleWhen.occurrences, List.forall_mem_append] at h
    refine embeds_bind (expression_embeds value h.1) fun value => ?_
    exact embeds_bind (expression_embeds result h.2) fun _ => embeds_pure rfl

theorem simpleWhens_embed : ∀ written : List Phrase.SimpleWhen,
    (∀ occurrence ∈ Phrase.simpleWhensOccurrences written, around.Admits occurrence) →
    Embeds schema around
      (List.map (Resolved.SimpleWhen.rebuilt false (FromElement.embedded around)))
      (simpleWhens written) (simpleWhens written)
  | [], _ => embeds_pure rfl
  | first :: rest, h => by
    simp only [Phrase.simpleWhensOccurrences, List.forall_mem_append] at h
    refine embeds_bind (simpleWhen_embeds first h.1) fun first => ?_
    exact embeds_bind (simpleWhens_embed rest h.2) fun _ => embeds_pure rfl

theorem searchedWhen_embeds : ∀ written : Phrase.SearchedWhen,
    (∀ occurrence ∈ written.occurrences, around.Admits occurrence) →
    Embeds schema around (Resolved.SearchedWhen.rebuilt false (FromElement.embedded around))
      (searchedWhen written) (searchedWhen written)
  | .mk condition result, h => by
    simp only [Phrase.SearchedWhen.occurrences, List.forall_mem_append] at h
    refine embeds_bind (predicate_embeds condition h.1) fun condition => ?_
    exact embeds_bind (expression_embeds result h.2) fun _ => embeds_pure rfl

theorem searchedWhens_embed : ∀ written : List Phrase.SearchedWhen,
    (∀ occurrence ∈ Phrase.searchedWhensOccurrences written, around.Admits occurrence) →
    Embeds schema around
      (List.map (Resolved.SearchedWhen.rebuilt false (FromElement.embedded around)))
      (searchedWhens written) (searchedWhens written)
  | [], _ => embeds_pure rfl
  | first :: rest, h => by
    simp only [Phrase.searchedWhensOccurrences, List.forall_mem_append] at h
    refine embeds_bind (searchedWhen_embeds first h.1) fun first => ?_
    exact embeds_bind (searchedWhens_embed rest h.2) fun _ => embeds_pure rfl

theorem predicate_embeds : ∀ written : Phrase.Predicate,
    (∀ occurrence ∈ written.occurrences, around.Admits occurrence) →
    Embeds schema around (Predicate.rebuilt false (FromElement.embedded around))
      (predicate written) (predicate written)
  | .and left right, h => by
    simp only [Phrase.Predicate.occurrences, List.forall_mem_append] at h
    refine embeds_bind (predicate_embeds left h.1) fun left => ?_
    exact embeds_bind (predicate_embeds right h.2) fun _ => embeds_pure rfl
  | .or left right, h => by
    simp only [Phrase.Predicate.occurrences, List.forall_mem_append] at h
    refine embeds_bind (predicate_embeds left h.1) fun left => ?_
    exact embeds_bind (predicate_embeds right h.2) fun _ => embeds_pure rfl
  | .not inner, h => embeds_bind (predicate_embeds inner h) fun _ => embeds_pure rfl
  | .grouped inner, h => embeds_bind (predicate_embeds inner h) fun _ => embeds_pure rfl
  | .comparison operator left right, h => by
    simp only [Phrase.Predicate.occurrences, List.forall_mem_append] at h
    refine embeds_bind (expression_embeds left h.1) fun left => ?_
    exact embeds_bind (expression_embeds right h.2) fun _ => embeds_pure rfl
  | .between tested lower upper negated, h => by
    simp only [Phrase.Predicate.occurrences, List.forall_mem_append] at h
    refine embeds_bind (expression_embeds tested h.1.1) fun tested => ?_
    refine embeds_bind (expression_embeds lower h.1.2) fun lower => ?_
    exact embeds_bind (expression_embeds upper h.2) fun upper =>
      embeds_pure (Predicate.rebuilt_between tested lower upper negated).symm
  | .like matched pattern escape negated, h => by
    simp only [Phrase.Predicate.occurrences, List.forall_mem_append] at h
    refine embeds_bind (expression_embeds matched h.1.1) fun matched => ?_
    refine embeds_bind (expression_embeds pattern h.1.2) fun pattern => ?_
    exact embeds_bind (optional_embeds escape h.2) fun escape =>
      embeds_pure (Predicate.rebuilt_like matched pattern escape negated).symm
  | .inList tested items negated, h => by
    simp only [Phrase.Predicate.occurrences, List.forall_mem_append] at h
    refine embeds_bind (expression_embeds tested h.1) fun tested => ?_
    exact embeds_bind (expressions_embed items h.2) fun items =>
      embeds_pure (Predicate.rebuilt_inList tested items negated).symm
  | .inSubquery tested operand negated, h => by
    simp only [Phrase.Predicate.occurrences, List.forall_mem_append] at h
    have htested := expression_embeds tested h.1
    cases operand with
    | subquery nested =>
      refine embeds_bind htested fun tested => ?_
      refine embeds_bind (nested_embeds fun hinside hmapped =>
        query_embeds nested true hinside hmapped h.2) fun select => embeds_pure ?_
      rw [ofSelect_embedded]
      rfl
    | _ => exact embeds_bind htested fun _ => embeds_throw _ _
  | .isNull tested negated, h => embeds_bind (expression_embeds tested h) fun _ => embeds_pure rfl
  | .isEmpty tested negated, h => by
    refine embeds_bind (expression_embeds tested h) fun collection => ?_
    exact embeds_bind (pluralOperand_embeds .isEmpty collection) fun _ => embeds_pure rfl
  | .memberOf element collection negated, h => by
    simp only [Phrase.Predicate.occurrences, List.forall_mem_append] at h
    refine embeds_bind (expression_embeds element h.1) fun element => ?_
    refine embeds_bind (pluralOperand_embeds .memberOf element) fun plural => ?_
    exact embeds_bind (expression_embeds collection h.2) fun _ => embeds_pure rfl
  | .existence operand negated, h => by
    cases operand with
    | subquery nested =>
      refine embeds_bind (nested_embeds fun hinside hmapped =>
        query_embeds nested true hinside hmapped h) fun select => embeds_pure ?_
      rw [ofSelect_embedded]
      rfl
    | _ => exact embeds_throw _ _

theorem restriction_embeds : ∀ written : Option Phrase.Predicate,
    (∀ occurrence ∈ Phrase.restrictionOccurrences written, around.Admits occurrence) →
    Embeds schema around (Option.map (Predicate.rebuilt false (FromElement.embedded around)))
      (restriction written) (restriction written)
  | none, _ => embeds_pure rfl
  | some written, h => embeds_bind (predicate_embeds written h) fun _ => embeds_pure rfl

theorem selectExpression_embeds : ∀ written : Phrase.SelectExpression,
    (∀ occurrence ∈ written.occurrences, around.Admits occurrence) →
    Embeds schema around (Expression.rebuilt false (FromElement.embedded around))
      (selectExpression written) (selectExpression written)
  | .instantiation target items, h => by
    refine embeds_bind (instantiationTarget_embeds target items) fun made => ?_
    exact embeds_bind (arguments_embed items h) fun made' =>
      embeds_pure (Expression.rebuilt_instantiation _ made').symm
  | .object name, h => by
    have hname : around.Ignores name := h (.used name) (List.mem_singleton_self _)
    exact embeds_bind (identificationVariable_embeds hname) fun element =>
      embeds_pure (Expression.rebuilt_element element).symm
  | .expression written, h => expression_embeds written h

theorem arguments_embed : ∀ written : List Phrase.SelectItem,
    (∀ occurrence ∈ Phrase.argumentsOccurrences written, around.Admits occurrence) →
    Embeds schema around
      (List.map (Resolved.Argument.rebuilt false (FromElement.embedded around)))
      (arguments written) (arguments written)
  | [], _ => embeds_pure rfl
  | .mk written alias? :: rest, h => by
    simp only [Phrase.argumentsOccurrences, List.forall_mem_append] at h
    refine embeds_bind (selectExpression_embeds written h.1) fun value => ?_
    exact embeds_bind (arguments_embed rest h.2) fun _ => embeds_pure rfl

theorem selections_embed : ∀ (written : List Phrase.SelectItem) (position : Nat),
    (∀ occurrence ∈ Phrase.selectionsOccurrences written, around.Admits occurrence) →
    Embeds schema around
      (List.map (Resolved.Selection.rebuilt false (FromElement.embedded around)))
      (selections written position) (selections written position)
  | [], _, _ => embeds_pure rfl
  | .mk written alias? :: rest, position, h => by
    simp only [Phrase.selectionsOccurrences, List.forall_mem_append] at h
    refine embeds_bind (checkVariable_embeds hlenient alias?) fun _ => ?_
    refine embeds_bind (selectExpression_embeds written h.1.2) fun value => ?_
    have hselection : (Resolved.Selection.mk value alias?).rebuilt false
          (FromElement.embedded around)
        = .mk (value.rebuilt false (FromElement.embedded around)) alias? := rfl
    dsimp only
    rw [← hselection]
    refine embeds_bind (embeds_bindSelection position
      (Phrase.aliasOccurrences_admitted h.1.1)) fun _ => ?_
    exact embeds_bind (selections_embed rest (position + 1) h.2) fun _ => embeds_pure rfl

theorem selectClause_embeds : ∀ written : Option Phrase.SelectClause,
    (∀ occurrence ∈ Phrase.clauseOccurrences written, around.Admits occurrence) →
    Embeds schema around
      (Prod.map id (List.map (Resolved.Selection.rebuilt false (FromElement.embedded around))))
      (selectClause written) (selectClause written)
  | none, _ => embeds_bind (implicitSelection_embeds hlenient) fun _ => embeds_pure rfl
  | some (.mk _ items), h => embeds_bind (selections_embed items 0 h) fun _ => embeds_pure rfl

theorem join_embeds (space : SpaceId) : ∀ written : Phrase.Join,
    (∀ occurrence ∈ written.occurrences, around.Admits occurrence) →
    Embeds schema around id (join space written) (join (space.embedded around) written)
  | .cross written, h => by
    refine embeds_bind (entity_embeds written.entity) fun joined => ?_
    refine embeds_bind (checkVariable_embeds hlenient written.alias?) fun _ => ?_
    exact embeds_bind (crossJoin_embeds space joined (Phrase.aliasOccurrences_admitted h))
      fun _ => embeds_pure rfl
  | .collection path alias?, h => by
    simp only [Phrase.Join.occurrences, List.forall_mem_append] at h
    exact memberJoin_embeds hlenient haround space (Phrase.pathOccurrences_admitted h.1)
      (Phrase.aliasOccurrences_admitted h.2)
  | .qualified type fetch target alias? condition, h => by
    simp only [Phrase.Join.occurrences, List.forall_mem_append] at h
    rw [join, join]
    refine embeds_bind (checkVariable_embeds hlenient alias?) fun _ => ?_
    refine embeds_bind (embeds_comply hlenient _ _ _ _) fun _ => ?_
    refine embeds_bind (joinTarget_embeds haround space (Phrase.pathOccurrences_admitted h.1.1)
      (Phrase.aliasOccurrences_admitted h.1.2) type fetch) fun element => ?_
    cases condition with
    | none => exact embeds_pure rfl
    | some written =>
      refine embeds_bind (embeds_under (.joinRestriction space)
        (predicate_embeds written h.2)) fun condition => ?_
      rw [FromElement.uid_embedded]
      refine embeds_updateSpace space fun filled restricted hrestricted => ?_
      cases hrestricted
      exact congrArg Except.ok (OpenSpace.restrict_rebuilt (fun _ => FromElement.uid_embedded)
        (fun _ _ => Nat.add_left_cancel) filled element.uid condition)

theorem joins_embed (space : SpaceId) : ∀ written : List Phrase.Join,
    (∀ occurrence ∈ Phrase.joinsOccurrences written, around.Admits occurrence) →
    Embeds schema around id (joins space written) (joins (space.embedded around) written)
  | [], _ => embeds_pure rfl
  | first :: rest, h => by
    simp only [Phrase.joinsOccurrences, List.forall_mem_append] at h
    exact embeds_bind (join_embeds space first h.1) fun _ => joins_embed space rest h.2

/-- A space of the outermost level may have a polymorphic root only in a query that is not
embedded. -/
theorem space_embeds : ∀ (written : Phrase.Space) {before : Context}, before.Inside →
    (before.levels.length = 1 → written.MappedRoot schema) →
    (∀ occurrence ∈ written.occurrences, around.Admits occurrence) →
    EmbedsAt schema around (fun value value' => value' = id value) before (space written)
      (space written)
  | .mk written hanging, before, hinside, hmapped, h => by
    simp only [Phrase.Space.occurrences, List.forall_mem_append] at h
    refine embedsAt_bind (embeds_openSpace before hinside) ?_
    rintro id _ between hopened hprogresses rfl
    have hlevel : id.level + 1 = between.levels.length := openSpace_current id between hopened
    have hlength : between.levels.length = before.levels.length := hprogresses.levels
    refine embedsAt_next (root_embeds hlenient id (Phrase.aliasOccurrences_admitted h.1)
      fun hzero => hmapped ?_) (hinside.progress hprogresses) fun _ => joins_embed id hanging h.2
    omega

theorem spaces_embed : ∀ (written : List Phrase.Space) {before : Context}, before.Inside →
    (before.levels.length = 1 → ∀ space ∈ written, space.MappedRoot schema) →
    (∀ occurrence ∈ Phrase.spacesOccurrences written, around.Admits occurrence) →
    EmbedsAt schema around (fun value value' => value' = id value) before (spaces written)
      (spaces written)
  | [], before, _, _, _ => embedsAt_pure before rfl
  | first :: rest, before, hinside, hmapped, h => by
    simp only [Phrase.spacesOccurrences, List.forall_mem_append] at h
    refine embedsAt_bind (space_embeds first hinside
      (fun hone => hmapped hone first List.mem_cons_self) h.1) ?_
    rintro _ _ between - hprogresses -
    have hlength : between.levels.length = before.levels.length := hprogresses.levels
    refine spaces_embed rest (hinside.progress hprogresses) (fun hone space hspace => ?_) h.2
    exact hmapped (hlength.symm.trans hone) space (List.mem_cons_of_mem _ hspace)

/-- A result variable is preferred where it is alone. -/
theorem sortItem_embeds : ∀ written : Phrase.SortItem,
    (∀ occurrence ∈ written.occurrences, around.Admits occurrence) →
    Embeds schema around (Resolved.SortItem.rebuilt false (FromElement.embedded around))
      (sortItem written) (sortItem written)
  | .mk written collation ordering, h => by
    have hvalue := expression_embeds written h
    refine embeds_get_bind fun context advisories hinside => ?_
    have hresult : resultVariable? (context.embedded around advisories).trail written
        = (resultVariable? context.trail written).map
          (Expression.rebuilt false (FromElement.embedded around)) :=
      resultVariable?_embedded hinside.trail written
    have hchecked : Embeds schema around id (ofExcept (sortOrder ordering))
        (ofExcept (sortOrder ordering)) := embeds_ofExcept fun _ h => h
    have hordered (value : Expression) :
        Embeds schema around (Resolved.SortItem.rebuilt false (FromElement.embedded around))
          (do
            let order ← ofExcept (sortOrder ordering)
            return .mk value collation order)
          (do
            let order ← ofExcept (sortOrder ordering)
            return .mk (value.rebuilt false (FromElement.embedded around)) collation order) :=
      embeds_bind hchecked fun _ => embeds_pure rfl
    rw [hresult]
    cases resultVariable? context.trail written with
    | none => exact embeds_bind hvalue hordered context hinside
    | some result => exact hordered result context hinside

theorem sortItems_embed : ∀ written : List Phrase.SortItem,
    (∀ occurrence ∈ Phrase.sortItemsOccurrences written, around.Admits occurrence) →
    Embeds schema around
      (List.map (Resolved.SortItem.rebuilt false (FromElement.embedded around)))
      (sortItems written) (sortItems written)
  | [], _ => embeds_pure rfl
  | first :: rest, h => by
    simp only [Phrase.sortItemsOccurrences, List.forall_mem_append] at h
    refine embeds_bind (sortItem_embeds first h.1) fun first => ?_
    exact embeds_bind (sortItems_embed rest h.2) fun _ => embeds_pure rfl

theorem order_embeds : ∀ written : Option (List Phrase.SortItem),
    (∀ occurrence ∈ Phrase.orderOccurrences written, around.Admits occurrence) →
    Embeds schema around
      (Option.map (List.map (Resolved.SortItem.rebuilt false (FromElement.embedded around))))
      (order written) (order written)
  | none, _ => embeds_pure rfl
  | some items, h => embeds_bind (sortItems_embed items h) fun _ => embeds_pure rfl

/-- A query that is interpreted alone, or nested in one that is, is embedded as a nested one. -/
theorem query_embeds : ∀ (written : Phrase.Query) (nested : Bool) {before : Context},
    before.openLevel.Inside → (before.levels = [] → written.MappedRoots schema) →
    (∀ occurrence ∈ written.occurrences, around.Admits occurrence) →
    EmbedsAt schema around
      (fun select select' => select' = select.rebuilt false (FromElement.embedded around)) before
      (query written nested) (query written true)
  | .mk select written condition ordering limit offset, nested, before, hinside, hmapped, h => by
    simp only [Phrase.Query.occurrences, List.forall_mem_append] at h
    obtain ⟨⟨⟨⟨⟨hselect, hwritten⟩, hcondition⟩, hordering⟩, hlimit⟩, hoffset⟩ := h
    simp only [query]
    -- Outside the strict language the order of a nested query is no breach.
    refine embedsAt_bind (embedsAt_comply hlenient before _ _ _ _) ?_
    rintro _ _ between hone - -
    rw [run_comply hlenient] at hone
    cases hone
    refine embedsAt_bind (embedsAt_comply hlenient before _ _ _ _) ?_
    rintro _ _ between hone - -
    rw [run_comply hlenient] at hone
    cases hone
    refine embedsAt_bind (embedsAt_onLevel (R := fun clauses clauses' => ∀ spaces,
      clauses' (spaces.map (Resolved.Space.rebuilt false (FromElement.embedded around)))
        = (clauses spaces).rebuilt false (FromElement.embedded around)) ?_) ?_
    · refine embedsAt_bind (spaces_embed written hinside (fun hone => hmapped ?_) hwritten) ?_
      · exact List.length_eq_zero_iff.mp (Nat.succ_inj.mp hone)
      rintro _ _ filled - hprogresses -
      refine embedsAt_next (selectClause_embeds select hselect) (hinside.progress hprogresses)
        fun selected chosen hchosen => ?_
      obtain ⟨distinct, selections⟩ := selected
      refine embedsAt_next (restriction_embeds condition hcondition) hchosen
        fun condition restricted hrestricted => ?_
      refine embedsAt_next (order_embeds ordering hordering) hrestricted
        fun ordering ordered hordered => ?_
      refine embedsAt_next (optional_embeds limit hlimit) hordered
        fun limit limited hlimited => ?_
      refine embedsAt_next (optional_embeds offset hoffset) hlimited fun offset after _ => ?_
      refine embedsAt_pure after fun spaces => ?_
      rw [Resolved.Select.rebuilt_mk]
      rfl
    · rintro ⟨clauses, spaces⟩ ⟨clauses', _⟩ after - - ⟨hclauses, rfl⟩
      exact embedsAt_pure after (hclauses spaces)

end

end

end Interpretation.Step
end EntityQuery

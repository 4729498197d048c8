import EntityQuery.Proofs.PlainPhrase
import EntityQuery.Proofs.RelatedReading

/-!
# Variables that are read

No variable of a text that is read looks like a made-up one: an identifier begins with a letter, an
underscore or a dollar sign, and a made-up variable does not. A phrase is plain if its parts are, so
plainness is a congruence.

* `plainness`: the congruence.
* `Statement.ofText_plain`: a statement that is read has plain variables.
-/

namespace EntityQuery.Phrase

open Grammar (Spells)
open Interpretation (Context)

/-! ## Identifiers -/

/-- A made-up variable begins with a sign. -/
theorem generatedAlias_toList (number : Nat) :
    ∃ rest, (Context.generatedAlias number).toList = '<' :: rest := by
  have htext : (Context.generatedAlias number).toList
      = "<gen:".toList ++ (toString number).toList ++ ">".toList := by
    rw [Context.generatedAlias, String.toList_append, String.toList_append]
    rfl
  exact ⟨_, htext⟩

theorem generatedAlias_of_isWord {word : String} (h : Grammar.IsWord word) (number : Nat) :
    word ≠ Context.generatedAlias number := by
  rintro rfl
  obtain ⟨first, letters, hword, hstart, -⟩ := h.form
  obtain ⟨rest, hsign⟩ := generatedAlias_toList number
  rw [hword] at hsign
  cases hsign
  exact absurd hstart (by decide)

theorem plainVariable_of_spells {alias? small? : Option String}
    (h : Option.Rel Spells alias? small?) : PlainVariable alias? := by
  cases h with
  | some h =>
    rintro _ ⟨rfl⟩
    exact generatedAlias_of_isWord h.2
  | none => exact fun _ hnone => nomatch hnone

/-! ## Parts of lists and options -/

/-- What a relation says of the first of two lists. -/
theorem forall_of_forall₂ {α β : Type} {R : α → β → Prop} {P : α → Prop}
    (himp : ∀ value other, R value other → P value) {values : List α} {others : List β}
    (h : List.Forall₂ R values others) : ∀ value ∈ values, P value := by
  induction h with
  | nil => exact fun _ hmem => nomatch hmem
  | cons hfirst _ ih => exact List.forall_mem_cons.mpr ⟨himp _ _ hfirst, ih⟩

theorem plain_expressions {written other : List Expression}
    (h : List.Forall₂ (fun written _ => written.Plain) written other) :
    expressionsPlain written := by
  refine expressionsPlain_iff.mpr (forall_of_forall₂ ?_ h)
  exact fun _ _ => id

theorem plain_optional {written other : Option Expression}
    (h : Option.Rel (fun written _ => written.Plain) written other) : optionalPlain written := by
  cases h with
  | some h => exact h
  | none => trivial

theorem plain_restriction {written other : Option Predicate}
    (h : Option.Rel (fun written _ => written.Plain) written other) : restrictionPlain written := by
  cases h with
  | some h => exact h
  | none => trivial

theorem plain_simpleWhens {whens other : List SimpleWhen}
    (h : List.Forall₂ (SimpleWhen.Related fun written _ => written.Plain) whens other) :
    simpleWhensPlain whens := by
  refine simpleWhensPlain_iff.mpr (forall_of_forall₂ ?_ h)
  rintro ⟨value, result⟩ ⟨value', result'⟩ hwhen
  exact hwhen

theorem plain_searchedWhens {whens other : List SearchedWhen}
    (h : List.Forall₂ (SearchedWhen.Related (fun written _ => written.Plain)
      fun written _ => written.Plain) whens other) : searchedWhensPlain whens := by
  refine searchedWhensPlain_iff.mpr (forall_of_forall₂ ?_ h)
  rintro ⟨condition, result⟩ ⟨condition', result'⟩ hwhen
  exact hwhen

theorem plain_items {items other : List SelectItem}
    (h : List.Forall₂ (SelectItem.Related fun written _ => written.Plain) items other) :
    itemsPlain items := by
  refine itemsPlain_iff.mpr (forall_of_forall₂ ?_ h)
  rintro ⟨selected, alias?⟩ ⟨selected', alias?'⟩ ⟨hselected, halias⟩
  exact ⟨plainVariable_of_spells halias, hselected⟩

theorem plain_clause {clause other : Option SelectClause}
    (h : Option.Rel (SelectClause.Related fun written _ => written.Plain) clause other) :
    clausePlain clause := by
  cases h with
  | none => trivial
  | @some clause other h =>
    obtain ⟨distinct, items⟩ := clause
    obtain ⟨distinct', items'⟩ := other
    exact plain_items h.2

theorem plain_spaces {spaces other : List Space}
    (h : List.Forall₂ (Space.Related fun written _ => written.Plain) spaces other) :
    spacesPlain spaces := by
  refine spacesPlain_iff.mpr (forall_of_forall₂ ?_ h)
  rintro ⟨root, joins⟩ ⟨root', joins'⟩ ⟨hroot, hjoins⟩
  refine ⟨plainVariable_of_spells hroot.2, joinsPlain_iff.mpr (forall_of_forall₂ ?_ hjoins)⟩
  exact fun _ _ => id

theorem plain_order {order other : Option (List SortItem)}
    (h : Option.Rel (List.Forall₂ (SortItem.Related fun written _ => written.Plain)) order other) :
    orderPlain order := by
  cases h with
  | none => trivial
  | some h =>
    refine sortItemsPlain_iff.mpr (forall_of_forall₂ ?_ h)
    rintro ⟨sorted, collation, ordering⟩ ⟨sorted', collation', ordering'⟩ ⟨hsorted, -⟩
    exact hsorted

/-- No variable of the first phrase looks like a made-up one. -/
def plainness : Congruence where
  expression written _ := written.Plain
  predicate written _ := written.Plain
  selection written _ := written.Plain
  join written _ := written.Plain
  query written _ := written.Plain
  literal _ := trivial
  parameter _ := trivial
  path _ := trivial
  indexed _ _ h := h
  treated _ _ _ := trivial
  mapFunction _ _ := trivial
  arithmetic _ hleft hright := ⟨hleft, hright, trivial⟩
  concatenation hleft hright := ⟨hleft, hright, trivial⟩
  unary _ h := h
  grouped h := h
  call _ _ _ _ h := plain_expressions h
  simpleCase hoperand hwhens hotherwise :=
    ⟨hoperand, plain_simpleWhens hwhens, plain_optional hotherwise⟩
  searchedCase hwhens hotherwise := ⟨plain_searchedWhens hwhens, plain_optional hotherwise⟩
  subquery h := h
  and hleft hright := ⟨hleft, hright⟩
  or hleft hright := ⟨hleft, hright⟩
  not h := h
  groupedPredicate h := h
  comparison _ hleft hright := ⟨hleft, hright⟩
  between _ htested hlower hupper := ⟨htested, hlower, hupper⟩
  like _ hmatched hpattern hescape := ⟨hmatched, hpattern, plain_optional hescape⟩
  inList _ htested hitems := ⟨htested, plain_expressions hitems⟩
  inSubquery _ htested h := ⟨htested, h⟩
  isNull _ h := h
  isEmpty _ h := h
  memberOf _ helement hcollection := ⟨helement, hcollection⟩
  existence _ h := h
  instantiation _ h := plain_items h
  object _ := trivial
  selected h := h
  cross h := plainVariable_of_spells h.2
  collection _ h := plainVariable_of_spells h
  qualified _ _ _ halias hcondition :=
    ⟨plainVariable_of_spells halias, plain_restriction hcondition⟩
  clauses hselect hspaces hrestriction horder hlimit hoffset :=
    ⟨plain_clause hselect, plain_spaces hspaces, plain_restriction hrestriction,
      plain_order horder, plain_optional hlimit, plain_optional hoffset⟩

/-- A statement that is read from a text has plain variables. -/
theorem Statement.ofText_plain {source : String} {phrase : Statement}
    (h : Statement.ofText source = .ok phrase) : phrase.Plain := by
  obtain ⟨small, hrelated⟩ := Statement.related_of_read plainness h
  cases hrelated with
  | select hquery => exact hquery
  | update htarget hassignments hrestriction =>
    exact ⟨plainVariable_of_spells htarget.2, forall_of_forall₂ (fun _ _ h => h.2) hassignments,
      plain_restriction hrestriction⟩
  | delete htarget hrestriction =>
    exact ⟨plainVariable_of_spells htarget.2, plain_restriction hrestriction⟩
  | insert target stateFields hquery => exact hquery

end EntityQuery.Phrase

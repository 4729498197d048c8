import EntityQuery.Proofs.RelatedReading

/-!
# Reading without regard to case

The phrase that is read of a text in small letters is the phrase that is read of the text, in small
letters: to be that is a congruence. So texts that differ in the case of letters only are read as
phrases that differ so, or are rejected alike.

* `lowering`: the congruence.
* `ofText_sameCase`: texts that are the same in small letters.
-/

namespace EntityQuery.Phrase

open Grammar (ReadAlike Spells map_of_rel)

/-! ## Parts in small letters -/

/-- What maps a list member by member. -/
theorem mapped_of_forall₂ {α β : Type} {R : α → β → Prop} {f : α → β} {g : List α → List β}
    (hnil : g [] = []) (hcons : ∀ value values, g (value :: values) = f value :: g values)
    (himp : ∀ value other, R value other → f value = other) {values : List α} {others : List β}
    (h : List.Forall₂ R values others) : g values = others := by
  induction h with
  | nil => exact hnil
  | cons hfirst _ ih => rw [hcons, himp _ _ hfirst, ih]

theorem expressions_lowered {written small : List Expression}
    (h : List.Forall₂ (fun written small => written.lowered = small) written small) :
    expressionsLowered written = small :=
  mapped_of_forall₂ rfl (fun _ _ => rfl) (fun _ _ => id) h

theorem optional_lowered {written small : Option Expression}
    (h : Option.Rel (fun written small => written.lowered = small) written small) :
    optionalLowered written = small := by
  cases h with
  | some h => exact congrArg some h
  | none => rfl

theorem restriction_lowered {written small : Option Predicate}
    (h : Option.Rel (fun written small => written.lowered = small) written small) :
    restrictionLowered written = small := by
  cases h with
  | some h => exact congrArg some h
  | none => rfl

theorem alias_lowered {alias? small? : Option String} (h : Option.Rel Spells alias? small?) :
    alias?.map Text.lowered = small? :=
  map_of_rel (fun _ _ => And.left) h

theorem root_lowered {root small : Root} (h : root.Related small) : root.lowered = small := by
  obtain ⟨entity, alias?⟩ := small
  obtain ⟨hentity, halias⟩ := h
  rw [Root.lowered, alias_lowered halias, hentity]

theorem simpleWhens_lowered {whens small : List SimpleWhen}
    (h : List.Forall₂ (SimpleWhen.Related fun written small => written.lowered = small) whens
      small) : simpleWhensLowered whens = small := by
  refine mapped_of_forall₂ rfl (fun _ _ => rfl) ?_ h
  rintro ⟨value, result⟩ ⟨value', result'⟩ ⟨hvalue, hresult⟩
  rw [SimpleWhen.lowered, hvalue, hresult]

theorem searchedWhens_lowered {whens small : List SearchedWhen}
    (h : List.Forall₂ (SearchedWhen.Related (fun written small => written.lowered = small)
      fun written small => written.lowered = small) whens small) :
    searchedWhensLowered whens = small := by
  refine mapped_of_forall₂ rfl (fun _ _ => rfl) ?_ h
  rintro ⟨condition, result⟩ ⟨condition', result'⟩ ⟨hcondition, hresult⟩
  rw [SearchedWhen.lowered, hcondition, hresult]

theorem items_lowered {items small : List SelectItem}
    (h : List.Forall₂ (SelectItem.Related fun written small => written.lowered = small) items
      small) : itemsLowered items = small := by
  refine mapped_of_forall₂ rfl (fun _ _ => rfl) ?_ h
  rintro ⟨selected, alias?⟩ ⟨selected', alias?'⟩ ⟨hselected, halias⟩
  rw [SelectItem.lowered, hselected, alias_lowered halias]

theorem clause_lowered {clause small : Option SelectClause}
    (h : Option.Rel (SelectClause.Related fun written small => written.lowered = small) clause
      small) : clauseLowered clause = small := by
  cases h with
  | none => rfl
  | @some clause clause' h =>
    obtain ⟨distinct, items⟩ := clause
    obtain ⟨distinct', items'⟩ := clause'
    obtain ⟨rfl, hitems⟩ := h
    rw [clauseLowered, items_lowered hitems]

theorem spaces_lowered {spaces small : List Space}
    (h : List.Forall₂ (Space.Related fun written small => written.lowered = small) spaces small) :
    spacesLowered spaces = small := by
  refine mapped_of_forall₂ rfl (fun _ _ => rfl) ?_ h
  rintro ⟨root, joins⟩ ⟨root', joins'⟩ ⟨hroot, hjoins⟩
  have hjoins : joinsLowered joins = joins' :=
    mapped_of_forall₂ rfl (fun _ _ => rfl) (fun _ _ => id) hjoins
  rw [Space.lowered, root_lowered hroot, hjoins]

theorem order_lowered {order small : Option (List SortItem)}
    (h : Option.Rel (List.Forall₂ (SortItem.Related fun written small => written.lowered = small))
      order small) : orderLowered order = small := by
  cases h with
  | none => rfl
  | some h =>
    refine congrArg some (mapped_of_forall₂ rfl (fun _ _ => rfl) ?_ h)
    rintro ⟨sorted, collation, ordering⟩ ⟨sorted', collation', ordering'⟩ ⟨hsorted, rfl, rfl⟩
    rw [SortItem.lowered, hsorted]

/-- The second phrase is the first one in small letters. -/
def lowering : Congruence where
  expression written small := written.lowered = small
  predicate written small := written.lowered = small
  selection written small := written.lowered = small
  join written small := written.lowered = small
  query written small := written.lowered = small
  literal _ := rfl
  parameter _ := rfl
  path _ := rfl
  indexed _ _ h := by rw [Expression.lowered, h]
  treated _ _ _ := rfl
  mapFunction _ _ := rfl
  arithmetic _ hleft hright := by
    rw [Expression.lowered, expressions_lowered (.cons hleft (.cons hright .nil))]
  concatenation hleft hright := by
    rw [Expression.lowered, expressions_lowered (.cons hleft (.cons hright .nil))]
  unary _ h := by rw [Expression.lowered, h]
  grouped h := by rw [Expression.lowered, h]
  call _ _ _ _ h := by rw [Expression.lowered, expressions_lowered h]
  simpleCase hoperand hwhens hotherwise := by
    rw [Expression.lowered, hoperand, simpleWhens_lowered hwhens, optional_lowered hotherwise]
  searchedCase hwhens hotherwise := by
    rw [Expression.lowered, searchedWhens_lowered hwhens, optional_lowered hotherwise]
  subquery h := by rw [Expression.lowered, h]
  and hleft hright := by rw [Predicate.lowered, hleft, hright]
  or hleft hright := by rw [Predicate.lowered, hleft, hright]
  not h := by rw [Predicate.lowered, h]
  groupedPredicate h := by rw [Predicate.lowered, h]
  comparison _ hleft hright := by rw [Predicate.lowered, hleft, hright]
  between _ htested hlower hupper := by rw [Predicate.lowered, htested, hlower, hupper]
  like _ hmatched hpattern hescape := by
    rw [Predicate.lowered, hmatched, hpattern, optional_lowered hescape]
  inList _ htested hitems := by rw [Predicate.lowered, htested, expressions_lowered hitems]
  inSubquery _ htested h := by rw [Predicate.lowered, Expression.lowered, htested, h]
  isNull _ h := by rw [Predicate.lowered, h]
  isEmpty _ h := by rw [Predicate.lowered, h]
  memberOf _ helement hcollection := by rw [Predicate.lowered, helement, hcollection]
  existence _ h := by rw [Predicate.lowered, h]
  instantiation _ h := by rw [SelectExpression.lowered, items_lowered h]
  object _ := rfl
  selected h := by rw [SelectExpression.lowered, h]
  cross h := by rw [Join.lowered, root_lowered h]
  collection _ h := by rw [Join.lowered, alias_lowered h]
  qualified _ _ _ halias hcondition := by
    rw [Join.lowered, alias_lowered halias, restriction_lowered hcondition]
  clauses hselect hspaces hrestriction horder hlimit hoffset := by
    rw [Query.lowered, clause_lowered hselect, spaces_lowered hspaces,
      restriction_lowered hrestriction, order_lowered horder, optional_lowered hlimit,
      optional_lowered hoffset]

theorem statement_lowered {statement small : Statement} (h : statement.Related lowering small) :
    statement.lowered = small := by
  cases h with
  | select h => exact congrArg Statement.select h
  | update htarget hassignments hrestriction =>
    rw [Statement.lowered, root_lowered htarget, restriction_lowered hrestriction]
    refine congrArg (Statement.update _ · _) (Grammar.map_of_forall₂ ?_ hassignments)
    rintro ⟨path, value⟩ ⟨path', value'⟩ ⟨hpath, hvalue⟩
    exact congrArg₂ Assignment.mk hpath hvalue
  | delete htarget hrestriction =>
    rw [Statement.lowered, root_lowered htarget, restriction_lowered hrestriction]
  | insert target stateFields hquery => exact congrArg (Statement.insert _ _) hquery

/-! ## Texts that differ in case -/

/-- What is read alike with a common text is read alike. -/
theorem readAlike_of_common {α β : Type} {f : α → β} {R : α → β → Prop}
    (himp : ∀ value other, R value other → f value = other)
    {first second : Except Report.QueryError α} {common : Except Report.QueryError β}
    (h : ReadAlike R first common) (h' : ReadAlike R second common) :
    ReadAlike (fun value other => f value = f other) first second := by
  cases h with
  | read hfirst =>
    cases h' with
    | read hsecond => exact .read ((himp _ _ hfirst).trans (himp _ _ hsecond).symm)
  | rejected hcode hplace =>
    cases h' with
    | rejected hcode' hplace' =>
      exact .rejected (hcode.trans hcode'.symm) (hplace.trans hplace'.symm)

/-- Texts that are equal up to the case of their letters are read as statements, and as
expressions, that are equal up to the case of the texts in them, or both are rejected with one code
at one place. -/
theorem ofText_sameCase {first second : String} (h : Text.lowered first = Text.lowered second) :
    ReadAlike (fun phrase other => phrase.lowered = other.lowered) (Statement.ofText first)
        (Statement.ofText second)
      ∧ ReadAlike (fun phrase other => phrase.lowered = other.lowered) (Expression.ofText first)
        (Expression.ofText second) := by
  constructor
  · have himp : ∀ phrase small, Statement.Related lowering phrase small →
        phrase.lowered = small := fun _ _ => statement_lowered
    refine readAlike_of_common himp (Statement.ofText_related lowering first) ?_
    rw [h]
    exact Statement.ofText_related lowering second
  · refine readAlike_of_common (fun _ _ => id) (Expression.ofText_related lowering first) ?_
    rw [h]
    exact Expression.ofText_related lowering second

/-- A function, a radix prefix, an exponent and suffixes in capital letters. -/
def capitalText : String := "SELECT UPPER(S.Label), 0XFFL, 1E2BD FROM Shelf S"

/-- The same selection, with the capital letters at other places. -/
def smallText : String := "select Upper(s.label), 0xffl, 1e2bd from SHELF s"

theorem ofText_sameCase_shelves :
    Text.lowered capitalText = Text.lowered smallText
      ∧ (Statement.ofText capitalText).isOk = true
      ∧ ReadAlike (fun phrase other => phrase.lowered = other.lowered)
        (Statement.ofText capitalText) (Statement.ofText smallText) := by
  have hsame : Text.lowered capitalText = Text.lowered smallText := by decide +kernel
  have hread : (Statement.ofText capitalText).isOk = true := by decide +kernel
  exact ⟨hsame, hread, (ofText_sameCase hsame).1⟩

end EntityQuery.Phrase

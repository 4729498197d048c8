import EntityQuery.Proofs.SplitDisjoint
import EntityQuery.Proofs.SplitTypes
import EntityQuery.Proofs.WellScoped

/-!
# The alias rule

No two selections share an alias, and a selection that is named after an element of its from clause
has the type of that element. A statement that has a meaning meets the rule in every query, but it
was looked at before roots over polymorphic names got their implementors. In a part, the selection
and the element may have got different implementors of the same name.

* `TypeDescriptor.NarrowsTo`: what becomes of a type when roots get implementors.
* `Expression.Holds.narrows`: the type of an expression in a part narrows its type.
* `Chosen`: how a selection of a part agrees with the element that it is named after.
* `ofText_aliasesAgree`: the rule in every query of a statement, and in its parts.
-/

namespace EntityQuery

open Interpretation Resolved Splitting

/-- The type is that of the polymorphic name or of one of its implementors. -/
def Polymorphic.Spans (polymorphic : Polymorphic) (type : TypeDescriptor) : Prop :=
  type = .polymorphic polymorphic ∨ ∃ entity ∈ polymorphic.implementors, type = .entity entity

/-- The second type is the first one or an implementor of it, if the first one is the polymorphic
type of a root. -/
def TypeDescriptor.NarrowsTo (roots : List FromElement) (type narrower : TypeDescriptor) : Prop :=
  narrower = type
    ∨ ∃ root ∈ roots, ∃ polymorphic, root.type = .polymorphic polymorphic
      ∧ type = .polymorphic polymorphic
      ∧ ∃ entity ∈ polymorphic.implementors, narrower = .entity entity

section

variable {roots : List FromElement}

theorem TypeDescriptor.NarrowsTo.spans {type narrower : TypeDescriptor}
    (h : type.NarrowsTo roots narrower) :
    narrower = type
      ∨ ∃ root ∈ roots, ∃ polymorphic, root.type = .polymorphic polymorphic
        ∧ type = .polymorphic polymorphic ∧ polymorphic.Spans narrower := by
  rcases h with rfl | ⟨root, hroot, polymorphic, hpolymorphic, htype, hentity⟩
  · exact .inl rfl
  · exact .inr ⟨root, hroot, polymorphic, hpolymorphic, htype, .inr hentity⟩

theorem TypeDescriptor.NarrowsTo.rank? {type narrower : TypeDescriptor}
    (h : type.NarrowsTo roots narrower) : narrower.rank? = type.rank? := by
  obtain rfl | ⟨_, -, _, -, rfl, _, -, rfl⟩ := h
  · rfl
  · rfl

namespace Resolved

/-! ## Inferred types -/

/-- A type that narrows another one, or none where there is none. -/
abbrev Narrowed (roots : List FromElement) :
    Option TypeDescriptor → Option TypeDescriptor → Prop :=
  Option.Rel (TypeDescriptor.NarrowsTo roots)

namespace Narrowed

variable {type? narrower? : Option TypeDescriptor}

theorem refl (type? : Option TypeDescriptor) : Narrowed roots type? type? := by
  cases type? with
  | none => exact .none
  | some type => exact .some (.inl rfl)

/-- A narrowed type of a sum: polymorphic names and entities add up to themselves. -/
theorem sumType (h : Narrowed roots type? narrower?) :
    Narrowed roots (Catalogue.sumType? type?) (Catalogue.sumType? narrower?) := by
  cases h with
  | none => exact .none
  | some hnarrows =>
    obtain rfl | ⟨root, hroot, polymorphic, hpolymorphic, rfl, entity, hentity, rfl⟩ := hnarrows
    · exact refl _
    · exact .some (.inr ⟨root, hroot, polymorphic, hpolymorphic, rfl, entity, hentity, rfl⟩)

theorem head {types narrower : List (Option TypeDescriptor)}
    (h : List.Forall₂ (Narrowed roots) types narrower) :
    Narrowed roots types.head?.join narrower.head?.join := by
  cases h with
  | nil => exact .none
  | cons hfirst _ => exact hfirst

theorem resultType {types narrower : List (Option TypeDescriptor)} (name : String)
    (h : List.Forall₂ (Narrowed roots) types narrower) :
    Narrowed roots (Catalogue.resultType? name types) (Catalogue.resultType? name narrower) := by
  have hfirst := head h
  simp only [Catalogue.resultType?]
  split
  case h_4 => exact sumType hfirst
  all_goals first | exact hfirst | exact refl _

/-- Neither a polymorphic name nor an entity has a rank, so that ranks decide as before. -/
theorem arithmeticType {left right left' right' : Option TypeDescriptor}
    (hleft : Narrowed roots left left') (hright : Narrowed roots right right') :
    Narrowed roots (Catalogue.arithmeticType? left right)
      (Catalogue.arithmeticType? left' right') := by
  cases hleft with
  | none => simpa only [Catalogue.arithmeticType?] using hright
  | some hleft =>
    cases hright with
    | none => simpa only [Catalogue.arithmeticType?] using .some hleft
    | some hright =>
      simp only [Catalogue.arithmeticType?, hleft.rank?, hright.rank?]
      split
      · split
        · exact .some hright
        · exact .some hleft
      · exact .some hleft

theorem firstTyped {nodes nodes' : List Expression}
    (h : List.Forall₂ (fun node node' : Expression => Narrowed roots node.type? node'.type?)
      nodes nodes') :
    Narrowed roots (firstTyped nodes) (firstTyped nodes') := by
  induction h with
  | nil => exact .none
  | @cons node node' rest rest' hnode _ ih =>
    rw [Resolved.firstTyped, Resolved.firstTyped, List.findSome?_cons, List.findSome?_cons]
    generalize node.type? = type?, node'.type? = narrower? at hnode
    cases hnode with
    | none => exact ih
    | some hnode => exact .some hnode

/-- Types that were inferred from selections narrow with them. -/
theorem selectionType {selections selections' : List Selection}
    (h : List.Forall₂ (fun selection selection' : Selection =>
      Narrowed roots selection.expression.type? selection'.expression.type?) selections selections')
    (position : Nat) :
    Narrowed roots (selectionType? selections position) (selectionType? selections' position) := by
  induction h generalizing position with
  | nil => exact .none
  | cons hselection _ ih =>
    cases position with
    | zero => exact hselection
    | succ position => exact ih position

end Narrowed

/-! ## Trees built anew -/

/-- What every element becomes has a type that narrows its type. -/
def Narrowing (roots : List FromElement) (visit : FromElement → FromElement)
    (bound : FromElement) : Prop :=
  bound.type.NarrowsTo roots (visit bound).type

/-- The types of the second expressions narrow those of the first ones. -/
def NarrowedAll (roots : List FromElement) : List Expression → List Expression → Prop :=
  List.Forall₂ fun node node' => Narrowed roots node.type? node'.type?

variable {schema : Schema} {typed : FromElement → Prop} {visit : FromElement → FromElement}

mutual

/-- In a typed tree, the type of an expression that is built anew narrows its type. -/
theorem Expression.Holds.narrows {scope : List FromElement} :
    ∀ {node : Expression}, node.Holds (typedRules schema typed) scope →
      Keep (Narrowing roots visit) node.leaves →
        Narrowed roots node.type? (node.rebuilt true visit).type?
  | .literal _, _, _ => Narrowed.refl _
  | .parameter _, _, _ => Narrowed.refl _
  | .element bound, _, hkeep => by
    rw [Expression.rebuilt_element]
    exact .some hkeep.head
  | .entityType _, _, _ => Narrowed.refl _
  | .reference attained, _, _ => by
    rw [Expression.rebuilt_reference, Expression.type?, Expression.type?,
      AttributeReference.type_rebuilt]
    exact Narrowed.refl _
  | .indexed attained, _, _ => by
    rw [Expression.rebuilt_indexed, Expression.type?, Expression.type?,
      IndexedReference.type_rebuilt]
    exact Narrowed.refl _
  | .constant _ _ _, _, _ => Narrowed.refl _
  | .mapEntry function join type?, _, _ => by
    rw [Expression.rebuilt_mapEntry]
    exact Narrowed.refl type?
  | .collectionFunction function argument type?, _, _ => by
    rw [Expression.rebuilt_collectionFunction]
    exact Narrowed.refl type?
  | .call name distinct star standard arguments type?, h, hkeep => by
    rw [Expression.rebuilt_call]
    cases standard with
    | false => exact Narrowed.refl type?
    | true =>
      have htypes : List.Forall₂ (Narrowed roots) (typesOf arguments)
          (typesOf (arguments.map (Expression.rebuilt true visit))) :=
        List.forall₂_map_left_iff.mpr
          (List.forall₂_map_right_iff.mpr (expressionsHold.narrow h.2 hkeep))
      rw [Expression.type?, h.1.call]
      exact Narrowed.resultType name htypes
  | .arithmetic operator left right type?, h, hkeep => by
    rw [Expression.rebuilt_arithmetic, Expression.type?, h.1.arithmetic]
    exact Narrowed.arithmeticType (h.2.1.narrows hkeep.left) (h.2.2.narrows hkeep.right)
  | .concatenation left right, _, _ => by
    rw [Expression.rebuilt_concatenation]
    exact Narrowed.refl _
  | .unary sign operand, h, hkeep => by
    rw [Expression.rebuilt_unary]
    exact h.2.narrows hkeep
  | .simpleCase operand whens otherwise type?, h, hkeep => by
    have hresults := simpleWhensHold.narrow h.2.2.1 hkeep.left.right
    have hotherwise := optionalHolds.narrow h.2.2.2 hkeep.right
    rw [Expression.rebuilt_simpleCase, Expression.type?, h.1.simpleCase]
    exact Narrowed.firstTyped (List.rel_append hresults hotherwise)
  | .searchedCase whens otherwise type?, h, hkeep => by
    have hresults := searchedWhensHold.narrow h.2.1 hkeep.left
    have hotherwise := optionalHolds.narrow h.2.2 hkeep.right
    rw [Expression.rebuilt_searchedCase, Expression.type?, h.1.searchedCase]
    exact Narrowed.firstTyped (List.rel_append hresults hotherwise)
  | .subquery nested, h, hkeep => by
    rw [Expression.rebuilt_subquery]
    exact h.2.narrows hkeep
  | .selection _ _ _, h, _ => by cases h.1
  | .instantiation target arguments, _, _ => by
    rw [Expression.rebuilt_instantiation]
    exact Narrowed.refl _

theorem expressionsHold.narrow {scope : List FromElement} :
    ∀ {nodes : List Expression}, expressionsHold (typedRules schema typed) scope nodes →
      Keep (Narrowing roots visit) (expressionLeaves nodes) →
        NarrowedAll roots nodes (nodes.map (Expression.rebuilt true visit))
  | [], _, _ => .nil
  | _ :: _, ⟨h, hs⟩, hkeep =>
    .cons (h.narrows hkeep.left) (expressionsHold.narrow hs hkeep.right)

theorem optionalHolds.narrow {scope : List FromElement} :
    ∀ {node : Option Expression}, optionalHolds (typedRules schema typed) scope node →
      Keep (Narrowing roots visit) (optionalLeaves node) →
        NarrowedAll roots node.toList (node.map (Expression.rebuilt true visit)).toList
  | none, _, _ => .nil
  | some _, h, hkeep => .cons (Expression.Holds.narrows h hkeep) .nil

theorem simpleWhensHold.narrow {scope : List FromElement} :
    ∀ {nodes : List SimpleWhen}, simpleWhensHold (typedRules schema typed) scope nodes →
      Keep (Narrowing roots visit) (simpleWhenLeaves nodes) →
        NarrowedAll roots (nodes.map SimpleWhen.result)
          ((nodes.map (SimpleWhen.rebuilt true visit)).map SimpleWhen.result)
  | [], _, _ => .nil
  | .mk _ _ :: _, ⟨h, hs⟩, hkeep =>
    .cons (h.2.narrows hkeep.left.right) (simpleWhensHold.narrow hs hkeep.right)

theorem searchedWhensHold.narrow {scope : List FromElement} :
    ∀ {nodes : List SearchedWhen}, searchedWhensHold (typedRules schema typed) scope nodes →
      Keep (Narrowing roots visit) (searchedWhenLeaves nodes) →
        NarrowedAll roots (nodes.map SearchedWhen.result)
          ((nodes.map (SearchedWhen.rebuilt true visit)).map SearchedWhen.result)
  | [], _, _ => .nil
  | .mk _ _ :: _, ⟨h, hs⟩, hkeep =>
    .cons (h.2.narrows hkeep.left.right) (searchedWhensHold.narrow hs hkeep.right)

theorem Subquery.Holds.narrows {scope : List FromElement} :
    ∀ {node : Subquery}, node.Holds (typedRules schema typed) scope →
      Keep (Narrowing roots visit) node.leaves →
        Narrowed roots node.type? (node.rebuilt true visit).type?
  | .mk (.mk spaces distinct selections restriction order limit offset) type?, ⟨h, hs⟩, hkeep => by
    have hselections : List.Forall₂ (fun selection selection' : Selection =>
        Narrowed roots selection.expression.type? selection'.expression.type?) selections
          (selections.map (Selection.rebuilt true visit)) :=
      selectionsHold.narrow hs.2.2.1 hkeep.left.left.left.left.right
    obtain rfl : selectionType? selections 0 = type? := (Subquery.mk.inj h).2
    rw [Subquery.rebuilt_mk, if_pos rfl, Select.rebuilt_mk]
    exact Narrowed.selectionType hselections 0

theorem selectionsHold.narrow {scope : List FromElement} :
    ∀ {nodes : List Selection}, selectionsHold (typedRules schema typed) scope nodes →
      Keep (Narrowing roots visit) (selectionLeaves nodes) →
        List.Forall₂ (fun selection selection' : Selection =>
          Narrowed roots selection.expression.type? selection'.expression.type?) nodes
            (nodes.map (Selection.rebuilt true visit))
  | [], _, _ => .nil
  | .mk _ _ :: _, ⟨h, hs⟩, hkeep =>
    .cons (Expression.Holds.narrows h hkeep.left) (selectionsHold.narrow hs hkeep.right)

end

/-! ## The rule in parts -/

/-- A selection of a part agrees with the element that it is named after: they have the same type,
or both types come from the polymorphic name of one root. -/
def Chosen (roots : List FromElement) (element : FromElement) (type? : Option TypeDescriptor) :
    Prop :=
  SameType element type?
    ∨ ∃ root ∈ roots, ∃ polymorphic, root.type = .polymorphic polymorphic
      ∧ polymorphic.Spans element.type ∧ ∃ type, type? = some type ∧ polymorphic.Spans type

/-- The rule for the selections of every query. -/
def aliasRules (agree : FromElement → Option TypeDescriptor → Prop) : Rules where
  select node := node.AliasesAgree agree

theorem spaceElements_rebuilt (spaces : List Space) :
    spaceElements (spaces.map (Space.rebuilt true visit)) = (spaceElements spaces).map visit := by
  rw [spaceElements, spaceElements, List.flatMap_map, List.map_flatMap]
  refine List.flatMap_congr fun space _ => ?_
  obtain ⟨root, joins⟩ := space
  rw [Space.rebuilt_mk, Space.elements, Space.elements, List.map_cons, Space.joins, Space.joins,
    List.map_map, List.map_map]
  refine congrArg (List.cons (visit root)) (List.map_congr_left fun join _ => ?_)
  obtain ⟨element, restriction⟩ := join
  rw [Function.comp_apply, Join.rebuilt_mk]
  rfl

theorem leaf_of_mem_joins {join : Join} {joins : List Join} (h : join ∈ joins) :
    .element join.element ∈ joinLeaves joins := by
  induction joins with
  | nil => cases h
  | cons first rest ih =>
    rcases List.mem_cons.mp h with rfl | hrest
    · obtain ⟨element, restriction⟩ := join
      exact List.mem_append_left _ List.mem_cons_self
    · exact List.mem_append_right _ (ih hrest)

/-- The elements of spaces are among the leaves. -/
theorem leaf_of_mem_spaceElements {bound : FromElement} {spaces : List Space}
    (h : bound ∈ spaceElements spaces) : .element bound ∈ spaceLeaves spaces := by
  induction spaces with
  | nil => cases h
  | cons space spaces ih =>
    rw [spaceElements, List.flatMap_cons] at h
    rcases List.mem_append.mp h with hspace | hrest
    · refine List.mem_append_left _ ?_
      obtain ⟨root, joins⟩ := space
      rcases List.mem_cons.mp hspace with rfl | hjoin
      · exact List.mem_cons_self
      · refine List.mem_cons_of_mem _ ?_
        obtain ⟨join, hmem, rfl⟩ := List.mem_map.mp hjoin
        exact leaf_of_mem_joins hmem
    · exact List.mem_append_right _ (ih hrest)

/-- What an element becomes keeps its variable and has a type that narrows its type. -/
structure Followed (roots : List FromElement) (visit : FromElement → FromElement)
    (bound : FromElement) : Prop where
  aliasName : (visit bound).aliasName = bound.aliasName
  type : Narrowing roots visit bound

/-- A selection and an element that had the same type agree when they have got other types. -/
theorem Followed.chosen {bound : FromElement} {type? narrower? : Option TypeDescriptor}
    (h : Followed roots visit bound) (hnarrowed : Narrowed roots type? narrower?)
    (hsame : SameType bound type?) : Chosen roots (visit bound) narrower? := by
  cases hnarrowed with
  | none => cases hsame
  | some hnarrows =>
    cases hsame
    rcases hnarrows.spans with rfl | ⟨root, hroot, polymorphic, hpolymorphic, htype, hspans⟩
    · rcases h.type.spans with heq | ⟨root, hroot, polymorphic, hpolymorphic, htype, hspans⟩
      · exact .inl (congrArg some heq.symm)
      · exact .inr ⟨root, hroot, polymorphic, hpolymorphic, hspans, _, rfl, .inl htype⟩
    · rcases h.type.spans with heq | ⟨_, -, other, -, hother, hothers⟩
      · exact .inr ⟨root, hroot, polymorphic, hpolymorphic, .inl (heq.trans htype), _, rfl, hspans⟩
      · cases htype.symm.trans hother
        exact .inr ⟨root, hroot, polymorphic, hpolymorphic, hothers, _, rfl, hspans⟩

/-- The selections of a query keep the rule when the query is built anew. -/
theorem Select.AliasesAgree.rebuilt {scope : List FromElement} {node : Select}
    (htyped : node.Holds (typedRules schema typed) scope)
    (hkeep : Keep (Followed roots visit) node.leaves) (h : node.AliasesAgree SameType) :
    (node.rebuilt true visit).AliasesAgree (Chosen roots) := by
  obtain ⟨spaces, distinct, selections, restriction, order, limit, offset⟩ := node
  obtain ⟨hdistinct, hagree⟩ := h
  have hselections : List.Forall₂ (fun selection selection' : Selection =>
      Narrowed roots selection.expression.type? selection'.expression.type?) selections
        (selections.map (Selection.rebuilt true visit)) :=
    selectionsHold.narrow htyped.2.2.1
      fun bound hbound => (hkeep.left.left.left.left.right bound hbound).type
  have halias (selection : Selection) :
      (selection.rebuilt true visit).alias? = selection.alias? := by
    cases selection
    rfl
  rw [Select.rebuilt_mk]
  refine ⟨?_, fun selection' hselection' element' helement' hnamed => ?_⟩
  · have hsame : (selections.map (Selection.rebuilt true visit)).filterMap Selection.alias?
        = selections.filterMap Selection.alias? := by
      rw [List.filterMap_map]
      exact List.filterMap_congr fun selection _ => halias selection
    exact hsame ▸ hdistinct
  · obtain ⟨selection, hselection, rfl⟩ := List.mem_map.mp hselection'
    obtain ⟨element, helement, rfl⟩ := List.mem_map.mp (spaceElements_rebuilt spaces ▸ helement')
    have hfollowed : Followed roots visit element :=
      hkeep.left.left.left.left.left element (leaf_of_mem_spaceElements helement)
    rw [halias, hfollowed.aliasName] at hnamed
    exact hfollowed.chosen
      (List.forall₂_same.mp (List.forall₂_map_right_iff.mp hselections) selection hselection)
      (hagree selection hselection element helement hnamed)

/-- What a tree needs so that the alias rule holds of the trees that are built anew. -/
def agreeingRules (schema : Schema) : Rules :=
  { typedRules schema fun _ => True with
    select := fun node => node.VariablesTyped ∧ node.AliasesAgree SameType }

theorem typedRules_of_agreeing :
    (agreeingRules schema).Implies (typedRules schema fun _ => True) where
  element _ := id
  reference := id
  indexed := id
  expression := id
  predicate := id
  subquery := id
  select := And.left

theorem agreeingRules_of_built {context : Context} :
    (context.rules schema True).Implies (agreeingRules schema) where
  element _ _ := trivial
  reference := And.left
  indexed := id
  expression := id
  predicate := id
  subquery := id
  select h := ⟨h.1, h.2.2.1 trivial⟩

theorem aliasRules_of_agreeing : (agreeingRules schema).Implies (aliasRules SameType) where
  element _ _ := trivial
  reference _ := trivial
  indexed _ := trivial
  expression _ := trivial
  predicate _ := trivial
  subquery _ := trivial
  select := And.right

theorem agreeingRules_renew : (agreeingRules schema).Renew (aliasRules (Chosen roots))
    (Followed roots visit) visit where
  element _ _ := trivial
  reference _ _ := trivial
  indexed _ _ := trivial
  expression _ _ := trivial
  predicate _ _ := trivial
  subquery _ _ := trivial
  select {scope node} h hkeep := by
    have htyped : node.Holds (typedRules schema fun _ => True) scope :=
      h.mono typedRules_of_agreeing (List.Subset.refl _)
    have hrule : node.AliasesAgree SameType := by
      cases node
      exact h.1.2
    exact hrule.rebuilt htyped hkeep

end Resolved
end

/-! ## Parts -/

namespace Splitting.ImageOf

variable {query image : Query} {entities : List Entity} {number : Nat → Nat}

/-- Each element of a part follows the element that it is the image of. -/
theorem followed (hnumbered : query.Numbered)
    (hentities : entities ∈ rootChoices query.polymorphicRoots) {element : FromElement}
    (helement : element ∈ query.select.elements) :
    Followed query.select.roots (FromElement.image (query.chosen entities) number) element where
  aliasName := FromElement.aliasName_image
  type := by
    rcases Query.chosen_cases hnumbered hentities helement with
      ⟨polymorphic, hroot, htype, entity, hentity, hchosen⟩ | ⟨-, hnone⟩
    · refine .inr ⟨element, hroot, polymorphic, htype, htype, entity, hentity, ?_⟩
      rw [FromElement.type_image, hchosen]
      rfl
    · exact .inl (FromElement.type_image_of_none hnone)

/-- The alias rule of an image. -/
theorem aliasesAgree {schema : Schema} (hnumbered : query.Numbered)
    (hentities : entities ∈ rootChoices query.polymorphicRoots)
    (h : ImageOf query (query.chosen entities) number image)
    (hagree : query.select.Holds (agreeingRules schema) []) :
    image.select.Holds (aliasRules (Chosen query.select.roots)) [] := by
  rw [h.select]
  exact hagree.renewed agreeingRules_renew fun bound hbound =>
    followed hnumbered hentities (mem_elements_of_leaf hbound)

end Splitting.ImageOf

/-- What is read from a text and has a meaning meets the alias rule in every query: no two
selections share an alias, and a selection that is named after an element of the same from clause
has its type. In the parts of a query, both types may have become ones of the polymorphic type of
one root. -/
theorem ofText_aliasesAgree {source : String} {phrase : Phrase.Statement} {schema : Schema}
    {meaning : Meaning} (hread : Phrase.Statement.ofText source = .ok phrase)
    (h : interpretPhrase phrase schema = .ok meaning) :
    meaning.statement.Holds (aliasRules SameType)
      ∧ ∀ select, meaning.statement = .select select →
        ∀ part ∈ Query.split ⟨select, meaning.narrowings⟩,
          part.select.Holds (aliasRules (Chosen select.roots)) [] := by
  have hplain : True → phrase.Plain := fun _ => Phrase.Statement.ofText_plain hread
  obtain ⟨context, hbuilt, -⟩ := interpretPhrase_built hplain h
  have hagree : meaning.statement.Holds (agreeingRules schema) :=
    hbuilt.holds.mono agreeingRules_of_built
  refine ⟨hagree.mono aliasRules_of_agreeing, fun select hselect part hpart => ?_⟩
  rw [hselect] at hagree
  cases phrase with
  | select written =>
    obtain ⟨entities, hentities, number, himage⟩ := interpretPhrase_parts h hselect part hpart
    exact himage.aliasesAgree (interpretPhrase_splittable h hselect).numbered hentities hagree
  | update target assignments restriction =>
    obtain ⟨_, _, _, hupdate, -⟩ := interpretPhrase_renders h
    cases hselect.symm.trans hupdate
  | delete target restriction =>
    obtain ⟨_, _, hdelete, -⟩ := interpretPhrase_renders h
    cases hselect.symm.trans hdelete
  | insert target fields query =>
    obtain ⟨_, _, _, hinsert, -⟩ := interpretPhrase_renders h
    cases hselect.symm.trans hinsert

/-! ## Parts that break the rule -/

namespace Resolved.Select

/-- A selection of the outermost query is named after an element of another type. -/
def clashes (select : Select) : Bool :=
  select.selections.any fun selection => (spaceElements select.spaces).any fun element =>
    selection.alias? == some element.aliasName
      && selection.expression.type? != some element.type

theorem clashes_of_holds {select : Select} (h : select.Holds (aliasRules SameType) []) :
    select.clashes = false := by
  obtain ⟨spaces, distinct, selections, restriction, order, limit, offset⟩ := select
  obtain ⟨⟨-, hagree⟩, -⟩ := h
  refine List.any_eq_false.mpr fun selection hselection hclash => ?_
  obtain ⟨element, helement, hboth⟩ := List.any_eq_true.mp hclash
  obtain ⟨hnamed, htype⟩ := Bool.and_eq_true_iff.mp hboth
  exact bne_iff_ne.mp htype (hagree selection hselection element helement (eq_of_beq hnamed))

end Resolved.Select

/-- The first of two animals under the name of the second one. -/
def swappedText : String := "select a as b from Animal a, Animal b"

/-- The query meets the rule, but a part for two different animals breaks it: its only selection has
the type of the first animal and the name of the second one. -/
theorem ofText_aliasesAgree_swapped :
    ∃ written meaning select, Phrase.Statement.ofText swappedText = .ok (.select written)
      ∧ interpretPhrase (.select written) kennel.schema = .ok meaning
      ∧ meaning.statement = .select select ∧ select.Holds (aliasRules SameType) []
      ∧ (∀ part ∈ Query.split ⟨select, meaning.narrowings⟩,
        part.select.Holds (aliasRules (Chosen select.roots)) [])
      ∧ ∃ part ∈ Query.split ⟨select, meaning.narrowings⟩,
        ¬ part.select.Holds (aliasRules SameType) [] := by
  have hpasses : selectPasses swappedText kennel.schema
      (fun query => query.split.any fun part => part.select.clashes) = true := by decide +kernel
  obtain ⟨written, meaning, select, hread, hmeaning, hselect, hclash⟩ :=
    exists_of_selectPasses hpasses
  obtain ⟨hrule, hparts⟩ := ofText_aliasesAgree hread hmeaning
  rw [hselect] at hrule
  obtain ⟨part, hpart, hbroken⟩ := List.any_eq_true.mp hclash
  refine ⟨written, meaning, select, hread, hmeaning, hselect, hrule, hparts select hselect, part,
    hpart, fun hholds => ?_⟩
  rw [Select.clashes_of_holds hholds] at hbroken
  cases hbroken

end EntityQuery

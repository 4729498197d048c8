import EntityQuery.Proofs.BoundElements
import EntityQuery.Proofs.Renders

/-!
# Mapped roots

In a tree that renders a phrase, all roots are those of mapped entities but for the roots of the
outermost query. The proof follows the forms of the phrase, since roots are bound by queries only.

* `RootsMapped`: no root is over a polymorphic name.
* `Phrase.Query.Renders.rootsMapped`: the outermost roots are the only others.
* `Phrase.Statement.Renders.rootsMapped`: the same of a statement.
-/

namespace EntityQuery

/-- The element is no root over a polymorphic name. -/
def FromElement.IsMapped : FromElement → Prop
  | .root binding => binding.type.isPolymorphic = false
  | _ => True

/-- No root is over a polymorphic name. -/
def RootsMapped (elements : List FromElement) : Prop := ∀ element ∈ elements, element.IsMapped

theorem RootsMapped.nil : RootsMapped [] := fun _ h => by cases h

theorem RootsMapped.append {elements more : List FromElement} (h : RootsMapped elements)
    (h' : RootsMapped more) : RootsMapped (elements ++ more) :=
  List.forall_mem_append.mpr ⟨h, h'⟩

namespace Resolved

mutual

/-- What the source of a path binds is bound in its indices. -/
theorem AttributeReference.boundElements_eq : ∀ reference : AttributeReference,
    reference.boundElements = reference.indices.flatMap Expression.boundElements
  | .mk source _ _ => source.boundElements_eq

theorem PathSource.boundElements_eq : ∀ source : PathSource,
    source.boundElements = source.indices.flatMap Expression.boundElements
  | .element _ => rfl
  | .indexed attained => attained.boundElements_eq
  | .reference attained => attained.boundElements_eq

theorem IndexedReference.boundElements_eq : ∀ indexed : IndexedReference,
    indexed.boundElements = indexed.indices.flatMap Expression.boundElements
  | .mk collection index _ => by
    simp [IndexedReference.boundElements, IndexedReference.indices, collection.boundElements_eq]

end

theorem Expression.IsPlace.boundElements {value : Expression} (h : value.IsPlace) :
    value.boundElements = [] := by
  cases value with
  | reference attained =>
    have hindices : attained.indices = [] := h
    simp [Expression.boundElements, attained.boundElements_eq, hindices]
  | call name distinct star standard arguments type? =>
    have harguments : arguments = [] := h
    subst harguments
    rfl
  | element bound => rfl
  | entityType entity => rfl
  | constant _ _ _ => rfl
  | _ => cases h

theorem Expression.boundElements_indices {value index : Expression} (h : value.indices = [index]) :
    value.boundElements = index.boundElements := by
  cases value with
  | reference attained =>
    have hindices : attained.indices = [index] := h
    simp [Expression.boundElements, attained.boundElements_eq, hindices]
  | indexed attained =>
    have hindices : attained.indices = [index] := h
    simp [Expression.boundElements, attained.boundElements_eq, hindices]
  | _ => cases h

/-- The elements of joins that were not written are no roots. -/
theorem rootsMapped_explicit {joins : List Join}
    (hbare : ∀ join ∈ joins, join.isExplicit = false → join.restriction = none)
    (h : RootsMapped (joinsBound (joins.filter Join.isExplicit))) :
    RootsMapped (joinsBound joins) := by
  induction joins with
  | nil => exact .nil
  | cons first rest ih =>
    obtain ⟨hfirst, hrest⟩ := List.forall_mem_cons.mp hbare
    cases first with
    | mk element restriction =>
      cases hexplicit : (Join.mk element restriction).isExplicit with
      | true =>
        rw [List.filter_cons_of_pos hexplicit] at h
        obtain ⟨hhead, htail⟩ := List.forall_mem_append.mp h
        exact RootsMapped.append hhead (ih hrest htail)
      | false =>
        rw [List.filter_cons_of_neg (by simp [hexplicit])] at h
        have hnone : restriction = none := hfirst hexplicit
        subst hnone
        refine RootsMapped.append (fun bound hbound => ?_) (ih hrest h)
        rw [List.mem_singleton.mp hbound]
        cases element with
        | root binding => cases hexplicit
        | _ => trivial

theorem IsWrittenJoin.isMapped {element : FromElement} (h : IsWrittenJoin element) :
    element.IsMapped := by
  cases element with
  | root binding => cases h
  | _ => trivial

end Resolved

namespace Phrase

variable {schema : Schema} {maps : Bool}

/-- A root that has to be mapped is. -/
theorem Root.Renders.isMapped {written : Root} {element : FromElement}
    (h : written.Renders schema true element) : element.IsMapped := by
  obtain ⟨binding, entity, rfl, -, htype, hmapped⟩ := h
  change binding.type.isPolymorphic = false
  rw [htype, EntityReference.isPolymorphic_type]
  exact hmapped rfl

/-- A root of the outermost query, or no root over a polymorphic name. -/
def MappedUnder (nested : Bool) (roots : List FromElement) (element : FromElement) : Prop :=
  element.IsMapped ∨ nested = false ∧ element ∈ roots

mutual

theorem Expression.Renders.rootsMapped : ∀ (written : Expression) {node : Resolved.Expression},
    written.Renders schema maps node → RootsMapped node.boundElements
  | .literal token, _, h => by
    obtain ⟨value, rfl⟩ := h
    exact .nil
  | .parameter written, _, h => by
    have hnode : _ = Resolved.Expression.parameter written := h
    subst hnode
    exact .nil
  | .path _, _, h => by
    rw [Resolved.Expression.IsPlace.boundElements h]
    exact .nil
  | .indexed _ index _, _, h => by
    obtain ⟨rendered, hindices, hindex⟩ := h
    rw [Resolved.Expression.boundElements_indices hindices]
    exact Expression.Renders.rootsMapped index hindex
  | .treated _ _ _, _, h => by
    rw [Resolved.Expression.IsPlace.boundElements h]
    exact .nil
  | .mapFunction _ _, _, h => by
    rcases h with ⟨join, type?, rfl⟩ | ⟨-, -, join, rfl⟩
    · exact .nil
    · exact .nil
  | .arithmetic _ [left, right], _, h => by
    obtain ⟨first, second, type?, rfl, hleft, hright⟩ := h
    exact .append (Expression.Renders.rootsMapped left hleft)
      (Expression.Renders.rootsMapped right hright)
  | .arithmetic _ [], _, h => h.elim
  | .arithmetic _ [_], _, h => h.elim
  | .arithmetic _ (_ :: _ :: _ :: _), _, h => h.elim
  | .concatenation [left, right], _, h => by
    obtain ⟨first, second, rfl, hleft, hright⟩ := h
    exact .append (Expression.Renders.rootsMapped left hleft)
      (Expression.Renders.rootsMapped right hright)
  | .concatenation [], _, h => h.elim
  | .concatenation [_], _, h => h.elim
  | .concatenation (_ :: _ :: _ :: _), _, h => h.elim
  | .unary _ operand, _, h => by
    obtain ⟨rendered, rfl, hoperand⟩ := h
    change RootsMapped rendered.boundElements
    exact Expression.Renders.rootsMapped operand hoperand
  | .grouped inner, _, h => Expression.Renders.rootsMapped inner h
  | .call name generic _ _ arguments, _, h => by
    simp only [Expression.Renders] at h
    split at h
    · obtain ⟨argument, type?, rfl, harguments⟩ := h
      have hlist := expressionsRender.rootsMapped arguments harguments
      exact (List.forall_mem_append.mp hlist).1
    · obtain ⟨standard, rendered, type?, rfl, harguments⟩ := h
      exact expressionsRender.rootsMapped arguments harguments
  | .simpleCase operand whens otherwise, _, h => by
    obtain ⟨rendered, branches, default, type?, rfl, hoperand, hwhens, hotherwise⟩ := h
    exact .append (.append (Expression.Renders.rootsMapped operand hoperand)
      (simpleWhensRender.rootsMapped whens hwhens))
      (optionalRenders.rootsMapped otherwise hotherwise)
  | .searchedCase whens otherwise, _, h => by
    obtain ⟨branches, default, type?, rfl, hwhens, hotherwise⟩ := h
    exact .append (searchedWhensRender.rootsMapped whens hwhens)
      (optionalRenders.rootsMapped otherwise hotherwise)
  | .subquery query, _, h => by
    obtain ⟨select, type?, rfl, hquery⟩ := h
    change RootsMapped select.boundElements
    exact fun element helement =>
      (Query.Renders.rootsMapped query hquery element helement).resolve_right (by simp)

theorem expressionsRender.rootsMapped : ∀ (written : List Expression)
    {nodes : List Resolved.Expression}, expressionsRender schema maps written nodes →
      RootsMapped (Resolved.expressionsBound nodes)
  | [], _, h => by
    have hnone : _ = [] := h
    subst hnone
    exact .nil
  | first :: rest, _, h => by
    obtain ⟨node, others, rfl, hfirst, hrest⟩ := h
    exact .append (Expression.Renders.rootsMapped first hfirst)
      (expressionsRender.rootsMapped rest hrest)

theorem optionalRenders.rootsMapped : ∀ (written : Option Expression)
    {node : Option Resolved.Expression}, optionalRenders schema maps written node →
      RootsMapped (Resolved.optionalBound node)
  | none, _, h => by
    have hnone : _ = none := h
    subst hnone
    exact .nil
  | some written, _, h => by
    obtain ⟨rendered, rfl, hwritten⟩ := h
    exact Expression.Renders.rootsMapped written hwritten

theorem simpleWhensRender.rootsMapped : ∀ (written : List SimpleWhen)
    {nodes : List Resolved.SimpleWhen}, simpleWhensRender schema maps written nodes →
      RootsMapped (Resolved.simpleWhensBound nodes)
  | [], _, h => by
    have hnone : _ = [] := h
    subst hnone
    exact .nil
  | .mk value result :: rest, _, h => by
    obtain ⟨compared, found, others, rfl, hvalue, hresult, hrest⟩ := h
    exact .append (.append (Expression.Renders.rootsMapped value hvalue)
      (Expression.Renders.rootsMapped result hresult)) (simpleWhensRender.rootsMapped rest hrest)

theorem searchedWhensRender.rootsMapped : ∀ (written : List SearchedWhen)
    {nodes : List Resolved.SearchedWhen}, searchedWhensRender schema maps written nodes →
      RootsMapped (Resolved.searchedWhensBound nodes)
  | [], _, h => by
    have hnone : _ = [] := h
    subst hnone
    exact .nil
  | .mk condition result :: rest, _, h => by
    obtain ⟨tested, found, others, rfl, hcondition, hresult, hrest⟩ := h
    exact .append (.append (Predicate.Renders.rootsMapped condition hcondition)
      (Expression.Renders.rootsMapped result hresult)) (searchedWhensRender.rootsMapped rest hrest)

theorem Predicate.Renders.rootsMapped : ∀ (written : Predicate) {node : Resolved.Predicate},
    written.Renders schema maps node → RootsMapped node.boundElements
  | .and left right, _, h => by
    obtain ⟨first, second, rfl, hleft, hright⟩ := h
    exact .append (Predicate.Renders.rootsMapped left hleft)
      (Predicate.Renders.rootsMapped right hright)
  | .or left right, _, h => by
    obtain ⟨first, second, rfl, hleft, hright⟩ := h
    exact .append (Predicate.Renders.rootsMapped left hleft)
      (Predicate.Renders.rootsMapped right hright)
  | .not inner, _, h => by
    obtain ⟨rendered, rfl, hinner⟩ := h
    change RootsMapped rendered.boundElements
    exact Predicate.Renders.rootsMapped inner hinner
  | .grouped inner, _, h => by
    obtain ⟨rendered, rfl, hinner⟩ := h
    change RootsMapped rendered.boundElements
    exact Predicate.Renders.rootsMapped inner hinner
  | .comparison _ left right, _, h => by
    obtain ⟨first, second, rfl, hleft, hright⟩ := h
    exact .append (Expression.Renders.rootsMapped left hleft)
      (Expression.Renders.rootsMapped right hright)
  | .between expression lower upper _, _, h => by
    obtain ⟨tested, first, second, rfl, htested, hlower, hupper⟩ := h
    exact .append (.append (Expression.Renders.rootsMapped expression htested)
      (Expression.Renders.rootsMapped lower hlower)) (Expression.Renders.rootsMapped upper hupper)
  | .like expression pattern escape _, _, h => by
    obtain ⟨matched, shape, mark, rfl, hmatched, hpattern, hescape⟩ := h
    exact .append (.append (Expression.Renders.rootsMapped expression hmatched)
      (Expression.Renders.rootsMapped pattern hpattern))
      (optionalRenders.rootsMapped escape hescape)
  | .inList expression items _, _, h => by
    obtain ⟨tested, rendered, rfl, htested, hitems⟩ := h
    exact .append (Expression.Renders.rootsMapped expression htested)
      (expressionsRender.rootsMapped items hitems)
  | .inSubquery expression operand _, _, h => by
    cases operand with
    | subquery query =>
      obtain ⟨tested, select, type?, rfl, htested, hquery⟩ := h
      exact .append (Expression.Renders.rootsMapped expression htested) fun element helement =>
        (Query.Renders.rootsMapped query hquery element helement).resolve_right (by simp)
    | _ => exact h.elim
  | .isNull expression _, _, h => by
    obtain ⟨tested, rfl, htested⟩ := h
    change RootsMapped tested.boundElements
    exact Expression.Renders.rootsMapped expression htested
  | .isEmpty expression _, _, h => by
    obtain ⟨collection, rfl, hcollection⟩ := h
    change RootsMapped collection.boundElements
    exact Expression.Renders.rootsMapped expression hcollection
  | .memberOf element collection _, _, h => by
    obtain ⟨plural, other, rfl, helement, hcollection⟩ := h
    have hplural : RootsMapped plural.boundElements :=
      Expression.Renders.rootsMapped element helement
    exact .append hplural (Expression.Renders.rootsMapped collection hcollection)
  | .existence operand _, _, h => by
    cases operand with
    | subquery query =>
      obtain ⟨select, type?, rfl, hquery⟩ := h
      change RootsMapped select.boundElements
      exact fun element helement =>
        (Query.Renders.rootsMapped query hquery element helement).resolve_right (by simp)
    | _ => exact h.elim

theorem restrictionRenders.rootsMapped : ∀ (written : Option Predicate)
    {node : Option Resolved.Predicate}, restrictionRenders schema maps written node →
      RootsMapped (Resolved.restrictionBound node)
  | none, _, h => by
    have hnone : _ = none := h
    subst hnone
    exact .nil
  | some written, _, h => by
    obtain ⟨rendered, rfl, hwritten⟩ := h
    exact Predicate.Renders.rootsMapped written hwritten

theorem SelectExpression.Renders.rootsMapped : ∀ (written : SelectExpression)
    {node : Resolved.Expression}, written.Renders schema maps node →
      RootsMapped node.boundElements
  | .instantiation _ items, _, h => by
    obtain ⟨target, arguments, rfl, hitems⟩ := h
    exact argumentsRender.rootsMapped items hitems
  | .object _, _, h => by
    obtain ⟨element, rfl⟩ := h
    exact .nil
  | .expression written, _, h => Expression.Renders.rootsMapped written h

theorem argumentsRender.rootsMapped : ∀ (written : List SelectItem)
    {nodes : List Resolved.Argument}, argumentsRender schema maps written nodes →
      RootsMapped (Resolved.argumentsBound nodes)
  | [], _, h => by
    have hnone : _ = [] := h
    subst hnone
    exact .nil
  | .mk written _ :: rest, _, h => by
    obtain ⟨value, others, rfl, hvalue, hrest⟩ := h
    exact .append (SelectExpression.Renders.rootsMapped written hvalue)
      (argumentsRender.rootsMapped rest hrest)

theorem selectionsRender.rootsMapped : ∀ (written : List SelectItem)
    {nodes : List Resolved.Selection}, selectionsRender schema maps written nodes →
      RootsMapped (Resolved.selectionsBound nodes)
  | [], _, h => by
    have hnone : _ = [] := h
    subst hnone
    exact .nil
  | .mk written _ :: rest, _, h => by
    obtain ⟨value, others, rfl, hvalue, hrest⟩ := h
    exact .append (SelectExpression.Renders.rootsMapped written hvalue)
      (selectionsRender.rootsMapped rest hrest)

theorem clauseRenders.rootsMapped : ∀ (written : Option SelectClause) {distinct : Bool}
    {nodes : List Resolved.Selection}, clauseRenders schema maps written distinct nodes →
      RootsMapped (Resolved.selectionsBound nodes)
  | none, _, _, h => by
    obtain ⟨-, root, rfl⟩ := h
    exact .nil
  | some (.mk _ items), _, _, h => selectionsRender.rootsMapped items h.2

theorem Join.Renders.rootsMapped : ∀ (written : Join) {node : Resolved.Join},
    written.Renders schema maps node → RootsMapped node.boundElements
  | .cross _, _, h => by
    obtain ⟨element, rfl, helement⟩ := h
    exact List.forall_mem_singleton.mpr helement.isMapped
  | .collection _ _, _, h => by
    obtain ⟨element, rfl, helement⟩ := h
    exact List.forall_mem_singleton.mpr helement.isMapped
  | .qualified _ _ _ _ predicate, _, h => by
    obtain ⟨element, restriction, rfl, helement, hrestriction⟩ := h
    exact List.forall_mem_cons.mpr
      ⟨helement.isMapped, restrictionRenders.rootsMapped predicate hrestriction⟩

theorem joinsRender.rootsMapped : ∀ (written : List Join) {nodes : List Resolved.Join},
    joinsRender schema maps written nodes → RootsMapped (Resolved.joinsBound nodes)
  | [], _, h => by
    have hnone : _ = [] := h
    subst hnone
    exact .nil
  | first :: rest, _, h => by
    obtain ⟨node, others, rfl, hfirst, hrest⟩ := h
    exact .append (Join.Renders.rootsMapped first hfirst) (joinsRender.rootsMapped rest hrest)

theorem spacesRender.rootsMapped : ∀ (written : List Space) {nested : Bool}
    {nodes : List Resolved.Space}, spacesRender schema maps nested written nodes →
      ∀ element ∈ Resolved.spacesBound nodes,
        MappedUnder nested (nodes.map Resolved.Space.root) element
  | [], _, _, h => by
    have hnone : _ = [] := h
    subst hnone
    exact fun _ helement => by cases helement
  | .mk root joins :: rest, nested, _, h => by
    obtain ⟨node, others, rfl, ⟨element, joined, rfl, hroot, hjoins, hbare⟩, hrest⟩ := h
    have hjoined : RootsMapped (Resolved.joinsBound joined) :=
      Resolved.rootsMapped_explicit hbare (joinsRender.rootsMapped joins hjoins)
    intro bound hbound
    rcases List.mem_append.mp hbound with hfirst | hlater
    · rcases List.mem_cons.mp hfirst with rfl | hjoin
      · cases nested with
        | true => exact .inl hroot.isMapped
        | false => exact .inr ⟨rfl, List.mem_cons_self⟩
      · exact .inl (hjoined bound hjoin)
    · rcases spacesRender.rootsMapped rest hrest bound hlater with hmapped | ⟨hnested, hmem⟩
      · exact .inl hmapped
      · exact .inr ⟨hnested, List.mem_cons_of_mem _ hmem⟩

theorem sortItemsRender.rootsMapped : ∀ (written : List SortItem) {nodes : List Resolved.SortItem},
    sortItemsRender schema maps written nodes → RootsMapped (Resolved.sortItemsBound nodes)
  | [], _, h => by
    have hnone : _ = [] := h
    subst hnone
    exact .nil
  | .mk written _ _ :: rest, _, h => by
    obtain ⟨value, order, others, rfl, hvalue, hrest⟩ := h
    have hfirst : RootsMapped value.boundElements := by
      rcases hvalue with ⟨-, hvariable⟩ | hvalue
      · cases value with
        | selection _ _ _ => exact .nil
        | _ => cases hvariable
      · exact Expression.Renders.rootsMapped written hvalue
    exact .append hfirst (sortItemsRender.rootsMapped rest hrest)

theorem orderRenders.rootsMapped : ∀ (written : Option (List SortItem))
    {node : Option (List Resolved.SortItem)}, orderRenders schema maps written node →
      RootsMapped (Resolved.orderBound node)
  | none, _, h => by
    have hnone : _ = none := h
    subst hnone
    exact .nil
  | some items, _, h => by
    obtain ⟨rendered, rfl, hitems⟩ := h
    exact sortItemsRender.rootsMapped items hitems

theorem Query.Renders.rootsMapped : ∀ (written : Query) {nested : Bool} {node : Resolved.Select},
    written.Renders schema maps nested node →
      ∀ element ∈ node.boundElements, MappedUnder nested node.roots element
  | .mk select spaces restriction order limit offset, _, _, h => by
    obtain ⟨_, _, _, _, _, _, _, rfl, hspaces, hselect, hrestriction, horder, hlimit, hoffset⟩ := h
    intro element helement
    simp only [Resolved.Select.boundElements, List.mem_append] at helement
    rcases helement with ((((hmem | hmem) | hmem) | hmem) | hmem) | hmem
    · exact spacesRender.rootsMapped spaces hspaces element hmem
    · exact .inl (clauseRenders.rootsMapped select hselect element hmem)
    · exact .inl (restrictionRenders.rootsMapped restriction hrestriction element hmem)
    · exact .inl (orderRenders.rootsMapped order horder element hmem)
    · exact .inl (optionalRenders.rootsMapped limit hlimit element hmem)
    · exact .inl (optionalRenders.rootsMapped offset hoffset element hmem)

end

end Phrase

/-- The query of a statement that is not nested in another one. -/
def Resolved.Statement.outermost? : Resolved.Statement → Option Resolved.Select
  | .select query => some query
  | .insert _ _ query => some query
  | _ => none

/-- The element is a root of the outermost query. -/
def Resolved.Statement.IsOutermostRoot (statement : Resolved.Statement) (element : FromElement) :
    Prop :=
  ∃ query, statement.outermost? = some query ∧ element ∈ query.roots

namespace Phrase

variable {schema : Schema} {maps : Bool}

theorem assignmentsRender.rootsMapped {written : List Assignment}
    {nodes : List Resolved.Assignment} (h : assignmentsRender schema maps written nodes) :
    RootsMapped (nodes.flatMap Resolved.Assignment.boundElements) := by
  induction written generalizing nodes with
  | nil =>
    have hnone : nodes = [] := h
    subst hnone
    exact .nil
  | cons first rest ih =>
    obtain ⟨target, value, others, rfl, htarget, hvalue, hrest⟩ := h
    rw [List.flatMap_cons, Resolved.Assignment.boundElements, target.boundElements_eq, htarget]
    exact .append (.append .nil (Expression.Renders.rootsMapped first.value hvalue)) (ih hrest)

theorem fields_bind_nothing {written : List DottedName}
    {nodes : List Resolved.AttributeReference}
    (h : List.Forall₂ (fun _ field => Resolved.AttributeReference.indices field = []) written
      nodes) : nodes.flatMap Resolved.AttributeReference.boundElements = [] := by
  induction h with
  | nil => rfl
  | @cons _ field _ _ hfield _ ih => simp [field.boundElements_eq, hfield, ih]

/-- A root that a statement binds is one of its outermost query, or it is mapped. -/
theorem Statement.Renders.rootsMapped {written : Statement} {node : Resolved.Statement}
    (h : written.Renders schema maps node) :
    ∀ element ∈ node.boundElements, element.IsMapped ∨ node.IsOutermostRoot element := by
  have hbulk : ∀ {elements : List FromElement} {target : FromElement}, RootsMapped elements →
      target.IsMapped → ∀ element ∈ (Resolved.Space.mk target []).boundElements ++ elements,
        element.IsMapped := by
    intro elements target helements htarget
    exact RootsMapped.append (List.forall_mem_singleton.mpr htarget) helements
  cases written with
  | select query =>
    obtain ⟨select, rfl, hquery⟩ := h
    intro element helement
    refine (Query.Renders.rootsMapped query hquery element helement).imp_right ?_
    rintro ⟨-, hroot⟩
    exact ⟨select, rfl, hroot⟩
  | update target assignments restriction =>
    obtain ⟨element, assigned, condition, rfl, htarget, hassigned, hrestriction⟩ := h
    have helements := RootsMapped.append hassigned.rootsMapped
      (restrictionRenders.rootsMapped restriction hrestriction)
    intro bound hbound
    rw [Resolved.Statement.boundElements, List.append_assoc] at hbound
    exact .inl (hbulk helements htarget.isMapped bound hbound)
  | delete target restriction =>
    obtain ⟨element, condition, rfl, htarget, hrestriction⟩ := h
    intro bound hbound
    exact .inl (hbulk (restrictionRenders.rootsMapped restriction hrestriction) htarget.isMapped
      bound hbound)
  | insert target fields query =>
    obtain ⟨element, assigned, select, rfl, htarget, hfields, hquery⟩ := h
    intro bound hbound
    rw [Resolved.Statement.boundElements, fields_bind_nothing hfields, List.append_nil] at hbound
    rcases List.mem_append.mp hbound with hmem | hmem
    · rw [List.mem_singleton.mp hmem]
      exact .inl htarget.isMapped
    · refine (Query.Renders.rootsMapped query hquery bound hmem).imp_right ?_
      rintro ⟨-, hroot⟩
      exact ⟨select, rfl, hroot⟩

end Phrase
end EntityQuery

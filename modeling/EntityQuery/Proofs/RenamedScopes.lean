import EntityQuery.Interpretation.Path
import EntityQuery.Proofs.RenamedTrees
import EntityQuery.Proofs.TrailFrames
import Mathlib.Data.List.Basic

/-!
# Scopes with other variables

A renaming gives other names to some variables. It is harmless where it keeps the names that occur
apart and where the names that it changes mean nothing in the domain, before and after: then a
look-up in a scope and one in the scope with the other variables find the same.

* `Schema.Free`: names that mean nothing in a domain.
* `Renaming`: a harmless renaming; `Renaming.Marks`: the bindings that it is harmless for.
* `Agrees`: two checks that succeed alike or fail with the same code.
* `Trail.element?_renamed`, `Trail.selection?_renamed`, `bareOwner_renamed`: look-ups.
* `Trail.bind_renamed`, `Trail.bindSelection_renamed`: bindings.
-/

namespace EntityQuery

open Interpretation

namespace Schema

variable (schema : Schema)

/-- The types that a domain gives to entities, attributes and the elements of collections. -/
inductive Gives : TypeDescriptor → Prop where
  | entity {name : String} {entity : EntityReference} (h : schema.entity? name = some entity) :
      Gives entity.type
  | declared {declared : ValueType} {type : TypeDescriptor}
      (h : schema.resolve? declared = some type) : Gives type
  | element {type element : TypeDescriptor} (h : Gives type)
      (helement : type.element? = some element) : Gives element

/-- A name that means nothing: it is no reserved word, no function without parentheses and no
attribute, and the name of no entity and of no class begins with it. -/
structure Free (name : String) : Prop where
  reserved : Catalogue.isReserved name = false
  niladic : Catalogue.isNiladicFunction name = false
  entity : ∀ names, schema.entity? (DottedName.mk (name :: names)).text = none
  hostClass : ∀ names, schema.class? (DottedName.mk (name :: names)).text = none
  undeclared : ∀ type, schema.Gives type → type.declared? name = none

end Schema

/-- A renaming that keeps the admitted names apart and changes free names into free names only. -/
structure Renaming (schema : Schema) where
  rename : String → String
  /-- The names that may occur. -/
  admits : String → Prop
  injective : ∀ {name other}, admits name → admits other → rename name = rename other →
    name = other
  free : ∀ {name}, rename name ≠ name → schema.Free name ∧ schema.Free (rename name)
  /-- Made-up variables are admitted and keep their names. -/
  generated : ∀ number, admits (Context.generatedAlias number)
    ∧ rename (Context.generatedAlias number) = Context.generatedAlias number

namespace Interpretation

/-! ## Checks -/

/-- Two checks succeed with related values or fail with the same code. -/
inductive Agrees {α β : Type} (R : α → β → Prop) : Except Fault α → Except Fault β → Prop where
  | ok {value : α} {value' : β} (h : R value value') : Agrees R (.ok value) (.ok value')
  | error {fault fault' : Fault} (h : fault'.report.code = fault.report.code) :
      Agrees R (.error fault) (.error fault')

namespace Agrees

variable {α β γ δ : Type} {R : α → β → Prop} {S : γ → δ → Prop} {check : Except Fault α}
  {check' : Except Fault β}

theorem map (h : Agrees R check check') {f : α → γ} {f' : β → δ}
    (himp : ∀ value value', R value value' → S (f value) (f' value')) :
    Agrees S (check.map f) (check'.map f') := by
  cases h with
  | ok h => exact .ok (himp _ _ h)
  | error h => exact .error h

theorem bind (h : Agrees R check check') {f : α → Except Fault γ} {f' : β → Except Fault δ}
    (himp : ∀ value value', R value value' → Agrees S (f value) (f' value')) :
    Agrees S (check.bind f) (check'.bind f') := by
  cases h with
  | ok h => exact himp _ _ h
  | error h => exact .error h

/-- What is known of the first check alone may be used. -/
theorem along (h : Agrees R check check') {P : α → β → Prop}
    (himp : ∀ value value', check = .ok value → R value value' → P value value') :
    Agrees P check check' := by
  cases h with
  | ok h => exact .ok (himp _ _ rfl h)
  | error h => exact .error h

end Agrees

/-! ## Renamed scopes -/

section

variable (rename : String → String)

def ResultVariable.renamed (result : ResultVariable) : ResultVariable :=
  ⟨rename result.aliasName, result.position, result.expression.renamed rename⟩

def Mark.renamed : Mark → Mark
  | opened => opened
  | element bound => element (bound.renamed rename)
  | selection result => selection (result.renamed rename)

def Trail.renamed (trail : Trail) : Trail := trail.map (Mark.renamed rename)

end

/-- A made-up variable has no points. -/
theorem Context.generatedAlias_pointless (number : Nat) :
    '.' ∉ (Context.generatedAlias number).toList := by
  intro hpoint
  have htext : (Context.generatedAlias number).toList
      = "<gen:".toList ++ Nat.toDigits 10 number ++ ">".toList := by
    rw [Context.generatedAlias, String.toList_append, String.toList_append]
    simp [toString, Nat.repr]
  rw [htext] at hpoint
  simp only [List.mem_append] at hpoint
  rcases hpoint with (hfront | hdigit) | hback
  · exact absurd hfront (by decide)
  · exact absurd (Nat.isDigit_of_mem_toDigits (by decide) (by decide) hdigit) (by decide)
  · exact absurd hback (by decide)

end Interpretation

/-! ## Known bindings -/

namespace Renaming

variable {schema : Schema} (ρ : Renaming schema)

/-- An admitted name without points, as variables are. -/
def Bound (name : String) : Prop := ρ.admits name ∧ '.' ∉ name.toList

/-- The type and the variable of the element are as the domain and the query give them. -/
structure Knows (element : FromElement) : Prop where
  bound : ρ.Bound element.aliasName
  type : schema.Gives element.type

/-- Elements are known, and result variables have admitted names. -/
def Marks : Mark → Prop
  | .opened => True
  | .element bound => ρ.Knows bound
  | .selection result => ρ.admits result.aliasName

variable {ρ}

theorem bound_generated (number : Nat) : ρ.Bound (Context.generatedAlias number) :=
  ⟨(ρ.generated number).1, Context.generatedAlias_pointless number⟩

/-- A type of the domain declares a changed name neither before nor after. -/
theorem undeclared {name : String} (h : ρ.rename name ≠ name) {type : TypeDescriptor}
    (htype : schema.Gives type) :
    type.declared? name = none ∧ type.declared? (ρ.rename name) = none :=
  ⟨(ρ.free h).1.undeclared type htype, (ρ.free h).2.undeclared type htype⟩

theorem rename_eq_iff {name other : String} (hname : ρ.admits name) (hother : ρ.admits other) :
    ρ.rename name = ρ.rename other ↔ name = other :=
  ⟨ρ.injective hname hother, fun h => h ▸ rfl⟩

theorem beq_rename {name other : String} (hname : ρ.admits name) (hother : ρ.admits other) :
    (ρ.rename name == ρ.rename other) = (name == other) := by
  rw [Bool.eq_iff_iff, beq_iff_eq, beq_iff_eq]
  exact rename_eq_iff hname hother

end Renaming

namespace Interpretation

variable {schema : Schema} {ρ : Renaming schema}

/-! ## Look-ups in scopes -/

/-- A look-up that does not tell things from what is made of them finds the same. -/
theorem find?_map_of_forall {α : Type} {f : α → α} {p p' : α → Bool} {values : List α}
    (h : ∀ value ∈ values, p' (f value) = p value) :
    (values.map f).find? p' = (values.find? p).map f := by
  induction values with
  | nil => rfl
  | cons value values ih =>
    rw [List.map_cons, List.find?_cons, List.find?_cons, h value List.mem_cons_self]
    cases p value with
    | true => rfl
    | false => exact ih fun other hother => h other (List.mem_cons_of_mem _ hother)

namespace Trail

variable {trail : Trail} {name : String}

theorem isOpened_renamed (rename : String → String) (mark : Mark) :
    (mark.renamed rename).isOpened = mark.isOpened := by
  cases mark <;> rfl

theorem elements_renamed (rename : String → String) (marks : List Mark) :
    (marks.map (Mark.renamed rename)).filterMap Mark.element?
      = (marks.filterMap Mark.element?).map (FromElement.renamed rename) := by
  rw [List.filterMap_map, List.map_filterMap]
  refine List.filterMap_congr fun mark _ => ?_
  cases mark <;> rfl

theorem selections_renamed (rename : String → String) (marks : List Mark) :
    (marks.map (Mark.renamed rename)).filterMap Mark.selection?
      = (marks.filterMap Mark.selection?).map (ResultVariable.renamed rename) := by
  rw [List.filterMap_map, List.map_filterMap]
  refine List.filterMap_congr fun mark _ => ?_
  cases mark <;> rfl

theorem current_renamed (rename : String → String) (trail : Trail) :
    current (trail.renamed rename) = (current trail).map (Mark.renamed rename) := by
  have hopened : (fun mark : Mark => !mark.isOpened) ∘ Mark.renamed rename
      = fun mark => !mark.isOpened :=
    funext fun mark => congrArg not (isOpened_renamed rename mark)
  rw [current, renamed, List.takeWhile_map, hopened]
  rfl

/-- The variable of an element is found under its other name. -/
theorem find?_renamed {marks : List Mark} (hmarks : ∀ mark ∈ marks, ρ.Marks mark)
    (hname : ρ.admits name) :
    find? (ρ.rename name) (marks.map (Mark.renamed ρ.rename))
      = (find? name marks).map (FromElement.renamed ρ.rename) := by
  rw [find?, elements_renamed]
  refine find?_map_of_forall fun element helement => ?_
  obtain ⟨mark, hmark, hbound⟩ := List.mem_filterMap.mp helement
  cases mark with
  | element bound =>
    cases hbound
    rw [FromElement.aliasName_renamed]
    exact Renaming.beq_rename (hmarks _ hmark).bound.1 hname
  | opened => cases hbound
  | selection result => cases hbound

theorem element?_renamed (htrail : ∀ mark ∈ trail, ρ.Marks mark) (hname : ρ.admits name) :
    element? (trail.renamed ρ.rename) (ρ.rename name)
      = (element? trail name).map (FromElement.renamed ρ.rename) :=
  find?_renamed htrail hname

theorem selection?_renamed (htrail : ∀ mark ∈ trail, ρ.Marks mark) (hname : ρ.admits name) :
    selection? (trail.renamed ρ.rename) (ρ.rename name)
      = (selection? trail name).map (ResultVariable.renamed ρ.rename) := by
  rw [selection?, current_renamed, selections_renamed]
  refine find?_map_of_forall fun result hresult => ?_
  obtain ⟨mark, hmark, hbound⟩ := List.mem_filterMap.mp hresult
  cases mark with
  | selection found =>
    cases hbound
    exact Renaming.beq_rename (htrail _ (List.takeWhile_subset _ hmark)) hname
  | opened => cases hbound
  | element bound => cases hbound

/-- What is found is known. -/
theorem element?_knows (htrail : ∀ mark ∈ trail, ρ.Marks mark) {element : FromElement}
    (h : element? trail name = some element) : ρ.Knows element := by
  obtain ⟨mark, hmark, hbound⟩ := List.mem_filterMap.mp (element?_some h)
  cases mark with
  | element bound =>
    cases hbound
    exact htrail _ hmark
  | opened => cases hbound
  | selection result => cases hbound

theorem outer?_renamed (rename : String → String) (trail : Trail) :
    outer? (trail.renamed rename) = (outer? trail).map (renamed rename) := by
  induction trail with
  | nil => rfl
  | cons mark trail ih =>
    cases mark with
    | opened => rfl
    | element bound => exact ih
    | selection result => exact ih

theorem leave_renamed (rename : String → String) (trail : Trail) :
    leave (trail.renamed rename) = (leave trail).renamed rename := by
  rw [leave, outer?_renamed, leave]
  cases outer? trail <;> rfl

theorem leave_subset (trail : Trail) : trail.leave ⊆ trail := by
  have houter : ∀ {marks outer : Trail}, outer? marks = some outer → outer ⊆ marks := by
    intro marks
    induction marks with
    | nil =>
      intro outer h
      cases h
    | cons mark marks ih =>
      intro outer h
      cases mark with
      | opened =>
        cases h
        exact List.subset_cons_self _ _
      | element bound => exact List.Subset.trans (ih h) (List.subset_cons_self _ _)
      | selection result => exact List.Subset.trans (ih h) (List.subset_cons_self _ _)
  rw [leave]
  cases h : outer? trail with
  | none => exact List.Subset.refl _
  | some outer => exact houter h

theorem frames_renamed (rename : String → String) (trail : Trail) :
    frames (trail.renamed rename)
      = (frames trail).map (List.map (FromElement.renamed rename)) := by
  induction trail with
  | nil => rfl
  | cons mark trail ih =>
    cases mark with
    | opened => exact congrArg ([] :: ·) ih
    | selection result => exact ih
    | element bound =>
      have hcons : renamed rename (.element bound :: trail)
          = .element (bound.renamed rename) :: renamed rename trail := rfl
      rw [hcons, frames_element, frames_element, ih]
      cases frames trail with
      | nil => rfl
      | cons frame outer => simp

theorem frames_know (htrail : ∀ mark ∈ trail, ρ.Marks mark) :
    ∀ frame ∈ trail.frames, ∀ element ∈ frame, ρ.Knows element := by
  intro frame hframe element helement
  obtain ⟨mark, hmark, hbound⟩ := List.mem_filterMap.mp (frames_subset frame hframe helement)
  cases mark with
  | element bound =>
    cases hbound
    exact htrail _ hmark
  | opened => cases hbound
  | selection result => cases hbound

/-- An element is bound under its other name where its own is free. -/
theorem bind_renamed (htrail : ∀ mark ∈ trail, ρ.Marks mark) {element : FromElement}
    (helement : ρ.Knows element) :
    Agrees (fun bound bound' => bound' = bound.renamed ρ.rename ∧ ∀ mark ∈ bound, ρ.Marks mark)
      (trail.bind element) (bind (trail.renamed ρ.rename) (element.renamed ρ.rename)) := by
  have hcurrent : ∀ mark ∈ current trail, ρ.Marks mark :=
    fun mark hmark => htrail mark (List.takeWhile_subset _ hmark)
  rw [bind, bind, current_renamed, FromElement.aliasName_renamed,
    find?_renamed hcurrent helement.bound.1]
  cases find? element.aliasName (current trail) with
  | none => exact .ok ⟨rfl, List.forall_mem_cons.mpr ⟨helement, htrail⟩⟩
  | some existing => exact .error rfl

/-- A result variable may share its name with an element of its type, before and after. -/
theorem bindSelection_renamed (htrail : ∀ mark ∈ trail, ρ.Marks mark) (position : Nat)
    {selection : Resolved.Selection} (hname : ∀ name ∈ selection.alias?, ρ.admits name) :
    Agrees (fun bound bound' => bound' = bound.renamed ρ.rename ∧ ∀ mark ∈ bound, ρ.Marks mark)
      (trail.bindSelection position selection)
      (bindSelection (trail.renamed ρ.rename) position (selection.renamed ρ.rename)) := by
  have hcurrent : ∀ mark ∈ current trail, ρ.Marks mark :=
    fun mark hmark => htrail mark (List.takeWhile_subset _ hmark)
  rw [bindSelection, bindSelection, Resolved.Selection.alias?_renamed]
  cases halias : selection.alias? with
  | none => exact .ok ⟨rfl, htrail⟩
  | some aliasName =>
    have hadmits : ρ.admits aliasName := hname aliasName halias
    have hbound : Agrees (fun bound bound' : Trail =>
          bound' = bound.renamed ρ.rename ∧ ∀ mark ∈ bound, ρ.Marks mark)
        (.ok (.selection ⟨aliasName, position, selection.expression⟩ :: trail))
        (.ok (.selection ⟨ρ.rename aliasName, position,
          (selection.renamed ρ.rename).expression⟩ :: trail.renamed ρ.rename)) := by
      rw [Resolved.Selection.expression_renamed]
      exact .ok ⟨rfl, List.forall_mem_cons.mpr ⟨hadmits, htrail⟩⟩
    simp only [Option.map_some, selection?_renamed htrail hadmits, current_renamed,
      find?_renamed hcurrent hadmits, Option.isSome_map]
    split
    · exact .error rfl
    · cases find? aliasName (current trail) with
      | none => exact hbound
      | some element =>
        have htype : (selection.renamed ρ.rename).expression.type?
              = some (element.renamed ρ.rename).type
            ↔ selection.expression.type? = some element.type := by
          rw [Resolved.Selection.expression_renamed, Resolved.Expression.type?_renamed,
            FromElement.type_renamed]
        simp only [Option.map_some]
        by_cases hsame : selection.expression.type? = some element.type
        · rw [if_pos hsame, if_pos (htype.mpr hsame)]
          exact hbound
        · rw [if_neg hsame, if_neg (mt htype.mp hsame)]
          exact .error rfl

end Trail

/-! ## Bare attributes -/

theorem candidates_renamed (rename : String → String) (name : String) (frame : List FromElement) :
    candidates name (frame.map (FromElement.renamed rename))
      = (candidates name frame).map (FromElement.renamed rename) := by
  rw [candidates, candidates, List.filter_map]
  refine congrArg (List.map _) (List.filter_congr fun element _ => ?_)
  rw [Function.comp_apply, FromElement.isImplicit_renamed, FromElement.type_renamed]

/-- A changed name is no attribute. -/
theorem bareOwner_undeclared {name : String} {frames : List (List FromElement)}
    (h : ∀ frame ∈ frames, ∀ element ∈ frame, element.type.declared? name = none) :
    bareOwner name frames = .ok none := by
  induction frames with
  | nil => rfl
  | cons frame outer ih =>
    have hnone : candidates name frame = [] := by
      rw [candidates, List.filter_eq_nil_iff]
      intro element helement
      rw [h frame List.mem_cons_self element helement]
      simp
    rw [bareOwner, hnone]
    exact ih fun further hfurther => h further (List.mem_cons_of_mem _ hfurther)

/-- A bare attribute has an owner whose type declares it. -/
theorem bareOwner_declares {name : String} {frames : List (List FromElement)}
    {element : FromElement} (h : bareOwner name frames = .ok (some element)) :
    (∃ frame ∈ frames, element ∈ frame) ∧ (element.type.declared? name).isSome = true := by
  induction frames with
  | nil => cases h
  | cons frame outer ih =>
    rw [bareOwner] at h
    split at h
    · obtain ⟨⟨further, hfurther, helement⟩, hdeclared⟩ := ih h
      exact ⟨⟨further, List.mem_cons_of_mem _ hfurther, helement⟩, hdeclared⟩
    · rename_i owner howner
      cases h
      have hmem : element ∈ candidates name frame := by
        rw [howner]
        exact List.mem_singleton_self element
      obtain ⟨hframe, hcandidate⟩ := List.mem_filter.mp hmem
      exact ⟨⟨frame, List.mem_cons_self, hframe⟩, (Bool.and_eq_true_iff.mp hcandidate).2⟩
    · cases h

theorem bareOwner_same (rename : String → String) (name : String)
    (frames : List (List FromElement)) :
    Agrees (fun owner? owner?' => owner?' = owner?.map (FromElement.renamed rename))
      (bareOwner name frames)
      (bareOwner name (frames.map (List.map (FromElement.renamed rename)))) := by
  induction frames with
  | nil => exact .ok rfl
  | cons frame outer ih =>
    rw [List.map_cons, bareOwner, bareOwner, candidates_renamed]
    match candidates name frame with
    | [] => exact ih
    | [element] => exact .ok rfl
    | _ :: _ :: _ => exact .error rfl

/-- The owner of a bare attribute, whose name is left as it is, is the same element. -/
theorem bareOwner_renamed (name : String) {frames : List (List FromElement)}
    (hframes : ∀ frame ∈ frames, ∀ element ∈ frame, ρ.Knows element) :
    Agrees (fun owner? owner?' => owner?' = owner?.map (FromElement.renamed ρ.rename)
        ∧ ∀ element ∈ owner?, ρ.rename name = name ∧ ρ.Knows element)
      (bareOwner name frames)
      (bareOwner (ρ.rename name) (frames.map (List.map (FromElement.renamed ρ.rename)))) := by
  by_cases hname : ρ.rename name = name
  · rw [hname]
    refine (bareOwner_same ρ.rename name frames).along fun owner? owner?' howner hsame => ?_
    refine ⟨hsame, fun element helement => ⟨rfl, ?_⟩⟩
    cases owner? with
    | none => cases helement
    | some owner =>
      cases helement
      obtain ⟨⟨frame, hframe, hmem⟩, -⟩ := bareOwner_declares howner
      exact hframes frame hframe element hmem
  · rw [bareOwner_undeclared fun frame hframe element helement =>
      (Renaming.undeclared hname (hframes frame hframe element helement).type).1]
    rw [bareOwner_undeclared fun frame hframe element helement => ?_]
    · exact .ok ⟨rfl, fun element helement => by cases helement⟩
    · obtain ⟨known, hknown, rfl⟩ := List.mem_map.mp hframe
      obtain ⟨found, hfound, rfl⟩ := List.mem_map.mp helement
      rw [FromElement.type_renamed]
      exact (Renaming.undeclared hname (hframes known hknown found hfound).type).2

end Interpretation
end EntityQuery

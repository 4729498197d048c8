import EntityQuery.Proofs.BuiltPaths
import EntityQuery.Proofs.RenamedElements
import EntityQuery.Proofs.RenamedPhrases

/-!
# Paths with other variables

A path that begins with another variable leads to the same place with other variables. A name that
is changed begins no entity, no constant and no bare attribute, so that the four readings of a path
are tried with the same outcome.

* `Step.fromElementParts_renamed`, `Step.treat_renamed`: elements.
* `entity?_renamed`, `constant?_renamed`: paths that do not begin with a variable.
* `Step.navigate_renamed`, `Step.path_renamed`, `Step.indexed_renamed`, `Step.treated_renamed`:
  expressions.
-/

namespace EntityQuery

open Interpretation
open Resolved (AttributeReference Expression IndexedReference PathSource)

variable {schema : Schema} {ρ : Renaming schema}

/-! ## Paths that are no variables -/

/-- A path that begins with a changed name is no entity, before and after. -/
theorem entity?_renamed (path : DottedName) :
    schema.entity? (path.renamed ρ.rename).text = schema.entity? path.text := by
  obtain ⟨parts⟩ := path
  match parts with
  | [] => rfl
  | first :: names =>
    change schema.entity? (DottedName.mk (ρ.rename first :: names)).text = _
    by_cases hname : ρ.rename first = first
    · rw [hname]
    · rw [(ρ.free hname).2.entity names, (ρ.free hname).1.entity names]

/-- A path that begins with a changed name is no constant, before and after. -/
theorem constant?_renamed (path : DottedName) :
    constant? schema (path.renamed ρ.rename) = constant? schema path := by
  obtain ⟨parts⟩ := path
  have hfree : ∀ {name : String} (names : List String), schema.Free name →
      constant? schema ⟨name :: names⟩ = none := by
    intro name names hfree
    match names with
    | [] => rfl
    | second :: names =>
      have howner : (name :: second :: names).dropLast
          = name :: (second :: names).dropLast := rfl
      simp only [constant?, howner, hfree.hostClass]
      simp
  match parts with
  | [] => rfl
  | first :: names =>
    change constant? schema ⟨ρ.rename first :: names⟩ = _
    by_cases hname : ρ.rename first = first
    · rw [hname]
    · rw [hfree names (ρ.free hname).2, hfree names (ρ.free hname).1]

namespace Interpretation

/-- What a variable stands for has that variable. -/
theorem Trail.element?_aliasName {trail : Trail} {name : String} {element : FromElement}
    (h : trail.element? name = some element) : element.aliasName = name := by
  rw [element?, find?] at h
  simpa using List.find?_some h

theorem checkDereference_agrees (type : TypeDescriptor) (place place' : String) (last : Bool) :
    Agrees Eq (checkDereference type place last) (checkDereference type place' last) := by
  unfold checkDereference
  split
  · exact .error rfl
  · split
    · exact .error rfl
    · exact .ok rfl

namespace Step

/-- A step that builds an expression, and the step that builds it with other variables. -/
abbrev RenamesExpression (ρ : Renaming schema) : Step Expression → Step Expression → Prop :=
  Corresponds ρ fun value value' => value' = value.renamed ρ.rename

/-! ## Elements -/

theorem checkReach_renamed (element : FromElement) :
    Corresponds ρ (fun _ _ => True) (checkReach element)
      (checkReach (element.renamed ρ.rename)) := by
  refine corresponds_get_bind fun context advisories _ => ?_
  have hresolver : (context.renamed ρ.rename advisories).resolver = context.resolver := rfl
  rw [hresolver, Context.spaceOf?_renamed]
  cases context.resolver with
  | joinRestriction space =>
    dsimp only
    split
    · exact corresponds_throw rfl
    · exact corresponds_pure trivial
  | _ => exact corresponds_pure trivial

theorem joinBeside_renamed {source : FromElement} (hsource : ρ.Knows source)
    (declared? : Option Attribute) (place : String) :
    Corresponds ρ ρ.Pairs (joinBeside source declared? place)
      (joinBeside (source.renamed ρ.rename) declared? (renamedText ρ.rename place)) := by
  refine corresponds_get_bind fun context advisories _ => ?_
  have hresolver : (context.renamed ρ.rename advisories).resolver = context.resolver := rfl
  dsimp only
  rw [hresolver, Context.spaceOf?_renamed]
  split
  · exact corresponds_throw_bind rfl
  cases context.spaceOf? source with
  | none => exact corresponds_throw rfl
  | some space =>
    exact attributeJoin_renamed ⟨fun _ h => (by cases h), fun _ h => (by cases h), hsource⟩

theorem implicitJoin_renamed {source : FromElement} (hsource : ρ.Knows source)
    (name place : String) (last : Bool) :
    Corresponds ρ ρ.Pairs (implicitJoin source name place last)
      (implicitJoin (source.renamed ρ.rename) name (renamedText ρ.rename place) last) := by
  unfold implicitJoin
  rw [FromElement.type_renamed]
  dsimp only
  cases source.type.declared? name with
  | none => exact joinBeside_renamed hsource none place
  | some declared =>
    refine corresponds_bind (attributeType_renamed declared) ?_
    rintro _ type ⟨rfl, -⟩
    exact corresponds_bind (corresponds_ofExcept (checkDereference_agrees type _ _ last))
      fun _ _ _ => joinBeside_renamed hsource (some declared) place

/-- Induction on the attributes; the text of the path so far is renamed at its beginning. -/
theorem joinAlong_renamed {source : FromElement} (hsource : ρ.Knows source) (place : String)
    (names : List String) :
    Corresponds ρ ρ.Pairs (joinAlong source place names)
      (joinAlong (source.renamed ρ.rename) (renamedText ρ.rename place) names) := by
  induction names generalizing source place with
  | nil => exact corresponds_pure ⟨rfl, hsource⟩
  | cons name names ih =>
    rw [joinAlong, joinAlong, ← renamedText_point]
    refine corresponds_bind (implicitJoin_renamed hsource name _ _) ?_
    rintro joined _ ⟨rfl, hjoined⟩
    exact ih hjoined _

theorem joinThrough_renamed {source : FromElement} (hsource : ρ.Knows source)
    (names : List String) :
    Corresponds ρ ρ.Pairs (joinThrough source names)
      (joinThrough (source.renamed ρ.rename) names) := by
  induction names generalizing source with
  | nil => exact corresponds_pure ⟨rfl, hsource⟩
  | cons name names ih =>
    have hname : renamedText ρ.rename source.aliasName = ρ.rename source.aliasName :=
      renamedText_plain hsource.bound.2 ρ.rename
    rw [joinThrough, joinThrough, FromElement.aliasName_renamed, ← hname, ← renamedText_point]
    refine corresponds_bind (implicitJoin_renamed hsource name _ _) ?_
    rintro joined _ ⟨rfl, hjoined⟩
    exact ih hjoined

/-- Where the parts lead to an element, they begin with a variable. -/
theorem fromElementParts_renamed {parts : List String}
    (hfirst : ∀ name ∈ parts.head?, ρ.admits name) (path path' : DottedName) :
    Corresponds ρ (fun element element' => ρ.Pairs element element'
        ∧ ∀ name ∈ parts.head?, '.' ∉ name.toList) (fromElementParts parts path)
      (fromElementParts ((DottedName.mk parts).renamed ρ.rename).parts path') := by
  cases parts with
  | nil => exact corresponds_throw rfl
  | cons first names =>
    refine corresponds_get_bind fun context advisories hfits => ?_
    have hfound : (context.renamed ρ.rename advisories).trail.element? (ρ.rename first)
        = (context.trail.element? first).map (FromElement.renamed ρ.rename) :=
      Trail.element?_renamed hfits.trail (hfirst first rfl)
    rw [hfound]
    cases helement : context.trail.element? first with
    | none => exact corresponds_throw rfl
    | some element =>
      have hknows : ρ.Knows element := Trail.element?_knows hfits.trail helement
      have hpoint : '.' ∉ first.toList := by
        rw [← Trail.element?_aliasName helement]
        exact hknows.bound.2
      refine corresponds_bind (checkReach_renamed element) fun _ _ _ => ?_
      have hplace : renamedText ρ.rename first = ρ.rename first :=
        renamedText_plain hpoint ρ.rename
      rw [← hplace]
      refine corresponds_mono (joinAlong_renamed hknows first names) fun _ _ hpairs =>
        ⟨hpairs, fun name hname => ?_⟩
      cases hname
      exact hpoint

theorem fromElementPath_renamed {path : DottedName}
    (hfirst : ∀ name ∈ path.parts.head?, ρ.admits name) :
    Corresponds ρ ρ.Pairs (fromElementPath path) (fromElementPath (path.renamed ρ.rename)) :=
  corresponds_mono (fromElementParts_renamed hfirst path (path.renamed ρ.rename))
    fun _ _ hpairs => hpairs.1

theorem treatTarget_renamed (name : DottedName) :
    Corresponds ρ (fun entity entity' => entity' = entity ∧ schema.Gives entity.type)
      (treatTarget name) (treatTarget name) := by
  refine corresponds_read_bind ?_
  cases hentity : schema.entity? name.text with
  | none => exact corresponds_throw rfl
  | some entity => exact corresponds_pure ⟨rfl, .entity hentity⟩

/-- An element that is narrowed keeps its variable. -/
theorem treat_renamed {element : FromElement} (helement : ρ.Knows element) (target : DottedName) :
    Corresponds ρ ρ.Pairs (treat element target) (treat (element.renamed ρ.rename) target) := by
  refine corresponds_bind (treatTarget_renamed target) ?_
  rintro _ entity ⟨rfl, hentity⟩
  dsimp only
  have hnarrow : Corresponds ρ ρ.Pairs
      (do
        modify fun context => context.narrow element.uid entity
        let uid ← drawUid
        modify fun context => context.register
          (.treated ⟨uid, element.aliasName, element.binding.generated, entity.type⟩ element)
        return .treated ⟨uid, element.aliasName, element.binding.generated, entity.type⟩ element)
      (do
        modify fun context => context.narrow (element.renamed ρ.rename).uid entity
        let uid ← drawUid
        modify fun context => context.register
          (.treated ⟨uid, (element.renamed ρ.rename).aliasName,
            (element.renamed ρ.rename).binding.generated, entity.type⟩ (element.renamed ρ.rename))
        return .treated ⟨uid, (element.renamed ρ.rename).aliasName,
          (element.renamed ρ.rename).binding.generated, entity.type⟩
          (element.renamed ρ.rename)) := by
    rw [FromElement.uid_renamed, FromElement.aliasName_renamed, FromElement.binding_renamed]
    refine corresponds_bind (corresponds_narrow _ _) fun _ _ _ => ?_
    refine corresponds_bind corresponds_drawUid ?_
    rintro uid _ rfl
    have hnarrowed : ρ.Knows
        (.treated ⟨uid, element.aliasName, element.binding.generated, entity.type⟩ element) :=
      ⟨helement.bound, hentity⟩
    exact corresponds_bind (corresponds_modify fun context advisories hfits =>
      ⟨hfits.register hnarrowed, advisories, rfl⟩) fun _ _ _ => corresponds_pure ⟨rfl, hnarrowed⟩
  rw [FromElement.type_renamed]
  split
  · split
    · exact corresponds_throw_bind rfl
    · exact hnarrow
  · exact hnarrow

/-! ## Attributes -/

theorem attributeReference_renamed (source : PathSource) (type : TypeDescriptor) (name : String)
    (path path' : DottedName) :
    Corresponds ρ (fun reference reference' => reference' = reference.renamed ρ.rename)
      (attributeReference source type name path)
      (attributeReference (source.renamed ρ.rename) type name path') := by
  unfold attributeReference
  cases type.declared? name with
  | none => exact corresponds_throw rfl
  | some declared =>
    refine corresponds_bind (attributeType_renamed declared) ?_
    rintro _ found ⟨rfl, -⟩
    exact corresponds_pure rfl

/-- The source that attributes lead to, and it with other variables, under one type. -/
def Leading (ρ : Renaming schema) (reached reached' : PathSource × TypeDescriptor) : Prop :=
  reached' = (reached.1.renamed ρ.rename, reached.2)

theorem composites_renamed (path path' : DottedName) (source : PathSource) (type : TypeDescriptor)
    (place place' : String) (names : List String) :
    Corresponds ρ (Leading ρ) (composites path source type place names)
      (composites path' (source.renamed ρ.rename) type place' names) := by
  induction names generalizing source type place place' with
  | nil => exact corresponds_pure rfl
  | cons name names ih =>
    refine corresponds_bind (attributeReference_renamed source type name path path') ?_
    rintro attained _ rfl
    rw [AttributeReference.type_renamed]
    refine corresponds_bind (corresponds_ofExcept (checkDereference_agrees _ _ _ false))
      fun _ _ _ => ?_
    split
    · exact ih (.reference attained) _ _ _
    · exact corresponds_throw rfl

theorem attributes_renamed (path path' : DottedName) (source : PathSource) (type : TypeDescriptor)
    (names : List String) :
    Corresponds ρ (Leading ρ) (attributes path source type names)
      (attributes path' (source.renamed ρ.rename) type names) := by
  induction names generalizing source type with
  | nil => exact corresponds_pure rfl
  | cons name names ih =>
    refine corresponds_bind (attributeReference_renamed source type name path path') ?_
    rintro attained _ rfl
    rw [AttributeReference.type_renamed]
    exact corresponds_bind (corresponds_ofExcept (checkDereference_agrees _ _ _ false))
      fun _ _ _ => ih (.reference attained) _

/-! ## Expressions -/

/-- The last attribute of a path. -/
theorem lastReference_renamed (source : PathSource) (type : TypeDescriptor) (name : String)
    (path path' : DottedName) :
    RenamesExpression ρ
      (do return .reference (← attributeReference source type name path))
      (do return .reference (← attributeReference (source.renamed ρ.rename) type name path')) := by
  refine corresponds_bind (attributeReference_renamed source type name path path') ?_
  rintro attained _ rfl
  exact corresponds_pure rfl

/-- The text of the whole path is for messages only. -/
theorem navigate_renamed {element : FromElement} (helement : ρ.Knows element)
    (names : List String) (path path' : DottedName) :
    RenamesExpression ρ (navigate element names path)
      (navigate (element.renamed ρ.rename) names path') := by
  refine corresponds_bind (checkReach_renamed element) fun _ _ _ => ?_
  cases names.getLast? with
  | none => exact corresponds_pure rfl
  | some last =>
    refine corresponds_get_bind fun context advisories _ => ?_
    have hresolver : (context.renamed ρ.rename advisories).resolver = context.resolver := rfl
    dsimp only
    rw [hresolver, FromElement.type_renamed]
    split
    · refine corresponds_bind (composites_renamed path path' (.element element) element.type
        element.aliasName (element.renamed ρ.rename).aliasName names.dropLast) ?_
      rintro ⟨source, type⟩ _ rfl
      exact lastReference_renamed source type last path path'
    · refine corresponds_bind (joinThrough_renamed helement names.dropLast) ?_
      rintro source _ ⟨rfl, -⟩
      rw [FromElement.type_renamed]
      exact lastReference_renamed (.element source) source.type last path path'

theorem navigateIndexed_renamed (indexed : IndexedReference) (path : DottedName) :
    RenamesExpression ρ (navigateIndexed indexed path)
      (navigateIndexed (indexed.renamed ρ.rename) path) := by
  unfold navigateIndexed
  rw [IndexedReference.type_renamed]
  cases path.parts.getLast? with
  | none => exact corresponds_pure rfl
  | some last =>
    refine corresponds_bind (attributes_renamed path path (.indexed indexed) indexed.type
      path.parts.dropLast) ?_
    rintro ⟨source, type⟩ _ rfl
    exact lastReference_renamed source type last path path

/-- The readings of a path are tried in the same order with the same outcome. -/
theorem path_renamed {dotted : DottedName} (hfirst : ∀ name ∈ dotted.parts.head?, ρ.admits name) :
    RenamesExpression ρ (path dotted) (path (dotted.renamed ρ.rename)) := by
  cases hparts : dotted.parts with
  | nil =>
    rw [DottedName.renamed_of_nil hparts]
    unfold path
    rw [hparts]
    exact corresponds_throw rfl
  | cons first names =>
    have hparts' : (dotted.renamed ρ.rename).parts = ρ.rename first :: names :=
      congrArg DottedName.parts (DottedName.renamed_of_parts hparts ρ.rename)
    have hadmits : ρ.admits first := hfirst first (by rw [hparts]; rfl)
    unfold path
    rw [hparts, hparts']
    refine corresponds_get_bind fun context advisories hfits => corresponds_read_bind ?_
    have hfound : (context.renamed ρ.rename advisories).trail.element? (ρ.rename first)
        = (context.trail.element? first).map (FromElement.renamed ρ.rename) :=
      Trail.element?_renamed hfits.trail hadmits
    rw [hfound, entity?_renamed, constant?_renamed]
    cases helement : context.trail.element? first with
    | some element => exact navigate_renamed (Trail.element?_knows hfits.trail helement) _ _ _
    | none =>
      dsimp only [Option.map_none]
      cases schema.entity? dotted.text with
      | some entity => exact corresponds_pure rfl
      | none =>
        cases hconstant : constant? schema dotted with
        | some constant =>
          obtain ⟨owner, member, type, rfl⟩ := constant?_form hconstant
          exact corresponds_pure rfl
        | none =>
          have howner := bareOwner_renamed first (Trail.frames_know hfits.trail)
          rw [← Trail.frames_renamed] at howner
          refine corresponds_bind (corresponds_ofExcept howner) ?_
          rintro found _ ⟨rfl, hknown⟩
          cases found with
          | none => exact corresponds_throw rfl
          | some element =>
            obtain ⟨hsame, hknows⟩ := hknown element rfl
            rw [hsame]
            exact navigate_renamed hknows _ _ _

theorem indexed_renamed {base : DottedName} (hfirst : ∀ name ∈ base.parts.head?, ρ.admits name)
    (index : Expression) (remainder : Option DottedName) :
    RenamesExpression ρ (indexed base index remainder)
      (indexed (base.renamed ρ.rename) (index.renamed ρ.rename) remainder) := by
  refine corresponds_bind (path_renamed hfirst) ?_
  rintro value _ rfl
  have hother (type? type?' : Option TypeDescriptor) : RenamesExpression ρ
      (throw (.indexOfNonCollection base type?))
      (throw (.indexOfNonCollection (base.renamed ρ.rename) type?')) := corresponds_throw rfl
  cases value with
  | reference collection =>
    rw [Expression.renamed]
    dsimp only
    rw [AttributeReference.type_renamed]
    split
    · rename_i position type hposition htype
      cases remainder with
      | none => exact corresponds_pure rfl
      | some rest =>
        exact corresponds_under _ (navigateIndexed_renamed (.mk collection index type) rest)
    · exact corresponds_throw rfl
  | _ => exact hother _ _

theorem treated_renamed {base : DottedName} (hfirst : ∀ name ∈ base.parts.head?, ρ.admits name)
    (target : DottedName) (remainder : Option DottedName) :
    RenamesExpression ρ (treated base target remainder)
      (treated (base.renamed ρ.rename) target remainder) := by
  refine corresponds_bind (fromElementPath_renamed hfirst) ?_
  rintro element _ ⟨rfl, helement⟩
  refine corresponds_bind (treat_renamed helement target) ?_
  rintro narrowed _ ⟨rfl, hnarrowed⟩
  cases remainder with
  | none => exact corresponds_pure rfl
  | some rest => exact navigate_renamed hnarrowed _ _ _

end Step
end Interpretation
end EntityQuery

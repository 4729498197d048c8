import EntityQuery.Proofs.BuiltPaths
import EntityQuery.Proofs.MirroredElements

/-!
# Paths followed in both states

A path that can be followed in a state and in the state with other types for some roots leads to the
same place. What decides a step is never the type of a root itself but what the type declares, and
an attribute of a polymorphic name is declared by each entity that implements it.

* `Declares`: the second type declares what the first one does.
* `Step.implicitJoin_mirrors`, `Step.fromElementParts_mirrors`, `Step.treat_mirrors`: elements.
* `Step.navigate_mirrors`, `Step.path_mirrors`, `Step.indexed_mirrors`, `Step.treated_mirrors`:
  expressions.
-/

namespace EntityQuery.Interpretation

open Resolved (AttributeReference Expression IndexedReference PathSource)

/-- The second type declares every attribute that the first one declares. -/
def Declares (type other : TypeDescriptor) : Prop :=
  ∀ name declared, type.declared? name = some declared → other.declared? name = some declared

theorem Declares.refl (type : TypeDescriptor) : Declares type type := fun _ _ h => h

theorem Context.trail_rebound {choice : Choice} {context : Context} :
    (context.rebound choice).trail = context.trail.rebound choice := rfl

theorem Context.resolver_rebound {choice : Choice} {context : Context} :
    (context.rebound choice).resolver = context.resolver := rfl

namespace Step

variable {schema : Schema} {choice : Choice} {before : Context}

/-- A step that builds the same expression in both states. -/
abbrev MirrorsExpression : Schema → Choice → Context → Step Expression → Step Expression → Prop :=
  fun schema choice => Mirrors (Becomes (Expression.rebuilt true (FromElement.rebound choice)))
    schema choice

/-! ## Elements -/

theorem checkReach_mirrors (hfits : before.Fits choice) (element : FromElement) :
    Mirrors (fun _ _ => True) schema choice before (checkReach element)
      (checkReach (element.rebound choice)) :=
  ends_checkReach (ends_checkReach ⟨trivial, rfl, .refl hfits⟩)

theorem joinBeside_mirrors (hfits : before.Fits choice) {source : FromElement}
    {declared? declared'? : Option Attribute}
    (hdeclared : ∀ declared, declared? = some declared → declared'? = some declared)
    (place : String) :
    Mirrors (Meets choice) schema choice before (joinBeside source declared? place)
      (joinBeside (source.rebound choice) declared'? place) := by
  refine together_get_bind ?_
  dsimp only
  rw [Context.resolver_rebound, Context.spaceOf?_rebound]
  split
  · exact together_throw_bind _ _ _
  cases before.spaceOf? source with
  | none => exact together_throw _ _
  | some space => exact attributeJoin_mirrors hfits _ hdeclared

/-- Without an attribute there is no join. -/
theorem joinBeside_undeclared (source : FromElement) (place : String) :
    Ends schema before (joinBeside source none place) fun _ _ => False := by
  refine ends_get_bind ?_
  dsimp only
  split
  · exact ends_throw_bind _ _
  split
  · exact ends_throw _
  refine ends_bind (ends_joinableAttribute (Q := fun _ _ => False) fun declared hsome _ => ?_)
    fun _ _ hfalse => hfalse.elim
  cases hsome

theorem implicitJoin_mirrors (hfits : before.Fits choice) {source : FromElement}
    (hcovered : source.Covered choice) (name place : String) (last : Bool) :
    Mirrors (Meets choice) schema choice before (implicitJoin source name place last)
      (implicitJoin (source.rebound choice) name place last) := by
  unfold implicitJoin
  dsimp only
  cases hdeclared : source.type.declared? name with
  | none => exact together_fails (joinBeside_undeclared source place)
  | some declared =>
    rw [hcovered.declared? hdeclared]
    refine mirrors_bind (attributeType_mirrors hfits declared) ?_
    rintro type _ between rfl hfits
    refine mirrors_bind (mirrors_ofExcept (R := fun _ _ => True) hfits
      fun _ _ _ _ => trivial) ?_
    rintro _ _ after _ hfits
    exact joinBeside_mirrors hfits (fun _ => id) place

theorem joinAlong_mirrors (hfits : before.Fits choice) {source : FromElement}
    (hcovered : source.Covered choice) (place : String) (names : List String) :
    Mirrors (Meets choice) schema choice before (joinAlong source place names)
      (joinAlong (source.rebound choice) place names) := by
  induction names generalizing before source place with
  | nil => exact mirrors_pure hfits ⟨rfl, hcovered⟩
  | cons name names ih =>
    refine mirrors_bind (implicitJoin_mirrors hfits hcovered name _ _) ?_
    rintro joined _ between ⟨rfl, hjoined⟩ hfits
    exact ih hfits hjoined _

theorem joinThrough_mirrors (hfits : before.Fits choice) {source : FromElement}
    (hcovered : source.Covered choice) (names : List String) :
    Mirrors (Meets choice) schema choice before (joinThrough source names)
      (joinThrough (source.rebound choice) names) := by
  induction names generalizing before source with
  | nil => exact mirrors_pure hfits ⟨rfl, hcovered⟩
  | cons name names ih =>
    rw [joinThrough, joinThrough, FromElement.aliasName_rebound]
    refine mirrors_bind (implicitJoin_mirrors hfits hcovered name _ _) ?_
    rintro joined _ between ⟨rfl, hjoined⟩ hfits
    exact ih hfits hjoined

theorem fromElementParts_mirrors (hfits : before.Fits choice) (parts : List String)
    (path : DottedName) :
    Mirrors (Meets choice) schema choice before (fromElementParts parts path)
      (fromElementParts parts path) := by
  unfold fromElementParts
  cases parts with
  | nil => exact together_throw _ _
  | cons first names =>
    refine together_get_bind ?_
    rw [Context.trail_rebound, Trail.element?_rebound]
    cases helement : before.trail.element? first with
    | none => exact together_throw _ _
    | some element =>
      refine mirrors_bind (checkReach_mirrors hfits element) ?_
      rintro _ _ between _ hbetween
      exact joinAlong_mirrors hbetween (hfits.bound element (Trail.element?_some helement)) _ _

theorem fromElementPath_mirrors (hfits : before.Fits choice) (path : DottedName) :
    Mirrors (Meets choice) schema choice before (fromElementPath path) (fromElementPath path) :=
  fromElementParts_mirrors hfits path.parts path

theorem treatTarget_mirrors (hfits : before.Fits choice) (name : DottedName) :
    Mirrors Eq schema choice before (treatTarget name) (treatTarget name) := by
  refine together_read_bind ?_
  cases schema.entity? name.text with
  | none => exact together_throw _ _
  | some entity => exact mirrors_pure hfits rfl

/-- An element that is narrowed keeps its type; only the narrowed one has the target's. -/
theorem treat_mirrors (hfits : before.Fits choice) (element : FromElement) (target : DottedName) :
    Mirrors (Meets choice) schema choice before (treat element target)
      (treat (element.rebound choice) target) := by
  refine mirrors_bind (treatTarget_mirrors hfits target) ?_
  rintro entity _ between rfl hfits
  dsimp only
  have hnarrow : Mirrors (Meets choice) schema choice between
      (do
        modify fun context => context.narrow element.uid entity
        let uid ← drawUid
        modify fun context => context.register
          (.treated ⟨uid, element.aliasName, element.binding.generated, entity.type⟩ element)
        return .treated ⟨uid, element.aliasName, element.binding.generated, entity.type⟩ element)
      (do
        modify fun context => context.narrow (element.rebound choice).uid entity
        let uid ← drawUid
        modify fun context => context.register
          (.treated ⟨uid, (element.rebound choice).aliasName,
            (element.rebound choice).binding.generated, entity.type⟩ (element.rebound choice))
        return .treated ⟨uid, (element.rebound choice).aliasName,
          (element.rebound choice).binding.generated, entity.type⟩ (element.rebound choice)) := by
    rw [FromElement.uid_rebound, FromElement.aliasName_rebound, FromElement.generated_rebound]
    refine mirrors_bind (mirrors_modify hfits rfl (Nat.le_refl _) rfl rfl) ?_
    rintro _ _ first _ hfirst
    refine mirrors_bind (drawUid_mirrors hfirst) ?_
    rintro _ uid second ⟨rfl, hfree⟩ hsecond
    let binding : Binding := ⟨uid, element.aliasName, element.binding.generated, entity.type⟩
    have hbinding : binding = binding.rebound choice := (binding_rebound hfree).symm
    have hform : FromElement.treated binding (element.rebound choice)
        = (FromElement.treated binding element).rebound choice :=
      congrArg (FromElement.treated · _) hbinding
    refine mirrors_bind (R := fun _ _ => True) (together_modify ⟨trivial, ?_, ?_⟩) ?_
    · rw [hform]
      rfl
    · exact .idle (hsecond.register (FromElement.covered_of_none hfree)) rfl
    rintro _ _ third _ hthird
    exact mirrors_pure hthird ⟨hform, FromElement.covered_of_none hfree⟩
  split
  · split
    · exact together_throw_bind _ _ _
    split
    · split
      · exact together_throw_bind_right _ _ _
      · exact hnarrow
    · exact hnarrow
  · split
    · split
      · exact together_throw_bind_right _ _ _
      · exact hnarrow
    · exact hnarrow

/-! ## Attributes -/

theorem attributeReference_mirrors (hfits : before.Fits choice) (source : PathSource)
    {type type' : TypeDescriptor} (hdeclares : Declares type type') (name : String)
    (path : DottedName) :
    Mirrors (Becomes (AttributeReference.rebuilt true (FromElement.rebound choice))) schema choice
      before (attributeReference source type name path)
      (attributeReference (source.rebuilt true (FromElement.rebound choice)) type' name path) := by
  unfold attributeReference
  cases hdeclared : type.declared? name with
  | none => exact together_throw _ _
  | some declared =>
    rw [hdeclares name declared hdeclared]
    refine mirrors_bind (attributeType_mirrors hfits declared) ?_
    rintro found _ between rfl hfits
    exact mirrors_pure hfits rfl

/-- What is reached by attributes that are taken in place. -/
def Leads (choice : Choice) (reached reached' : PathSource × TypeDescriptor) : Prop :=
  reached'.1 = reached.1.rebuilt true (FromElement.rebound choice) ∧ Declares reached.2 reached'.2

theorem reference_type (attained : AttributeReference) (visit : FromElement → FromElement) :
    (attained.rebuilt true visit).type = attained.type := by
  cases attained
  rfl

theorem composites_mirrors (hfits : before.Fits choice) (path : DottedName) (source : PathSource)
    {type type' : TypeDescriptor} (hdeclares : Declares type type') (place : String)
    (names : List String) :
    Mirrors (Leads choice) schema choice before (composites path source type place names)
      (composites path (source.rebuilt true (FromElement.rebound choice)) type' place names) := by
  induction names generalizing before source type type' place with
  | nil => exact mirrors_pure hfits ⟨rfl, hdeclares⟩
  | cons name names ih =>
    refine mirrors_bind (attributeReference_mirrors hfits source hdeclares name path) ?_
    rintro attained _ between rfl hfits
    rw [reference_type]
    refine mirrors_bind (mirrors_ofExcept (R := fun _ _ => True) hfits
      fun _ _ _ _ => trivial) ?_
    rintro _ _ after _ hfits
    split
    · exact ih hfits (.reference attained) (.refl _) _
    · exact together_throw _ _

theorem attributes_mirror (hfits : before.Fits choice) (path : DottedName) (source : PathSource)
    {type type' : TypeDescriptor} (hdeclares : Declares type type') (names : List String) :
    Mirrors (Leads choice) schema choice before (attributes path source type names)
      (attributes path (source.rebuilt true (FromElement.rebound choice)) type' names) := by
  induction names generalizing before source type type' with
  | nil => exact mirrors_pure hfits ⟨rfl, hdeclares⟩
  | cons name names ih =>
    refine mirrors_bind (attributeReference_mirrors hfits source hdeclares name path) ?_
    rintro attained _ between rfl hfits
    rw [reference_type]
    refine mirrors_bind (mirrors_ofExcept (R := fun _ _ => True) hfits
      fun _ _ _ _ => trivial) ?_
    rintro _ _ after _ hfits
    exact ih hfits (.reference attained) (.refl _)

/-! ## Expressions -/

/-- The last attribute of a path. -/
theorem lastReference_mirrors (hfits : before.Fits choice) (source : PathSource)
    {type type' : TypeDescriptor} (hdeclares : Declares type type') (name : String)
    (path : DottedName) :
    MirrorsExpression schema choice before
      (do return .reference (← attributeReference source type name path))
      (do
        return .reference (← attributeReference
          (source.rebuilt true (FromElement.rebound choice)) type' name path)) := by
  refine mirrors_bind (attributeReference_mirrors hfits source hdeclares name path) ?_
  rintro attained _ between rfl hfits
  exact mirrors_pure hfits rfl

theorem navigate_mirrors (hfits : before.Fits choice) {element : FromElement}
    (hcovered : element.Covered choice) (names : List String) (path : DottedName) :
    MirrorsExpression schema choice before (navigate element names path)
      (navigate (element.rebound choice) names path) := by
  refine mirrors_bind (checkReach_mirrors hfits element) ?_
  rintro _ _ between _ hfits
  have hdeclares : ∀ {source : FromElement}, source.Covered choice →
      Declares source.type (source.rebound choice).type :=
    fun hsource _ _ hdeclared => hsource.declared? hdeclared
  cases names.getLast? with
  | none => exact mirrors_pure hfits rfl
  | some last =>
    refine together_get_bind ?_
    dsimp only
    rw [Context.resolver_rebound]
    split
    · rw [FromElement.aliasName_rebound]
      refine mirrors_bind (composites_mirrors hfits path (.element element) (hdeclares hcovered)
        element.aliasName names.dropLast) ?_
      rintro ⟨source, type⟩ ⟨_, type'⟩ after ⟨rfl, htypes⟩ hfits
      exact lastReference_mirrors hfits source htypes last path
    · refine mirrors_bind (joinThrough_mirrors hfits hcovered names.dropLast) ?_
      rintro source _ after ⟨rfl, hsource⟩ hfits
      exact lastReference_mirrors hfits (.element source) (hdeclares hsource) last path

theorem navigateIndexed_mirrors (hfits : before.Fits choice) (indexed : IndexedReference)
    (path : DottedName) :
    MirrorsExpression schema choice before (navigateIndexed indexed path)
      (navigateIndexed (indexed.rebuilt true (FromElement.rebound choice)) path) := by
  have htype : (indexed.rebuilt true (FromElement.rebound choice)).type = indexed.type := by
    cases indexed
    rfl
  unfold navigateIndexed
  rw [htype]
  cases path.parts.getLast? with
  | none => exact mirrors_pure hfits rfl
  | some last =>
    refine mirrors_bind (attributes_mirror hfits path (.indexed indexed) (.refl _)
      path.parts.dropLast) ?_
    rintro ⟨source, type⟩ ⟨_, type'⟩ after ⟨rfl, htypes⟩ hfits
    exact lastReference_mirrors hfits source htypes last path

theorem path_mirrors (hfits : before.Fits choice) (dotted : DottedName) :
    MirrorsExpression schema choice before (path dotted) (path dotted) := by
  unfold path
  cases hparts : dotted.parts with
  | nil => exact together_throw _ _
  | cons first names =>
    refine together_get_bind (together_read_bind ?_)
    rw [Context.trail_rebound, Trail.element?_rebound, Trail.frames_rebound]
    cases helement : before.trail.element? first with
    | some element =>
      exact navigate_mirrors hfits (hfits.bound element (Trail.element?_some helement)) _ _
    | none =>
      dsimp only [Option.map_none]
      split
      · exact mirrors_pure hfits rfl
      split
      · rename_i constant hconstant
        obtain ⟨owner, member, type, rfl⟩ := constant?_form hconstant
        exact mirrors_pure hfits rfl
      have hframes : ∀ frame ∈ before.trail.frames, ∀ element ∈ frame, element.Covered choice :=
        fun frame hframe element helement =>
          hfits.bound element (Trail.frames_subset frame hframe helement)
      have howner : Mirrors (fun found found' => ∀ element element', found = some element →
          found' = some element' → Meets choice element element') schema choice before
          (ofExcept (bareOwner first before.trail.frames))
          (ofExcept (bareOwner first
            (before.trail.frames.map (List.map (FromElement.rebound choice))))) := by
        refine mirrors_ofExcept hfits ?_
        rintro found found' hfound hfound' element element' rfl rfl
        obtain ⟨frame, hframe, hmem⟩ := bareOwner_mem hfound
        exact ⟨bareOwner_rebound hframes hfits.outermost hfound hfound',
          hframes frame hframe element hmem⟩
      refine mirrors_bind howner ?_
      rintro found found' between hfound hfits
      cases found with
      | none => exact together_throw _ _
      | some element =>
        cases found' with
        | none => exact together_throw_right _ _
        | some element' =>
          obtain ⟨rfl, hcovered⟩ := hfound element element' rfl rfl
          rw [← hparts]
          exact navigate_mirrors hfits hcovered _ _

theorem indexed_mirrors (hfits : before.Fits choice) (base : DottedName) (index : Expression)
    (remainder : Option DottedName) :
    MirrorsExpression schema choice before (indexed base index remainder)
      (indexed base (index.rebuilt true (FromElement.rebound choice)) remainder) := by
  refine mirrors_bind (path_mirrors hfits base) ?_
  rintro value _ between rfl hfits
  cases value with
  | reference collection =>
    rw [Expression.rebuilt_reference]
    dsimp only
    rw [reference_type]
    split
    · rename_i position type hposition htype
      cases remainder with
      | none => exact mirrors_pure hfits rfl
      | some rest =>
        exact mirrors_under hfits fun context hcontext =>
          navigateIndexed_mirrors hcontext (.mk collection index type) rest
    · exact together_throw _ _
  | _ => exact together_throw _ _

theorem treated_mirrors (hfits : before.Fits choice) (base target : DottedName)
    (remainder : Option DottedName) :
    MirrorsExpression schema choice before (treated base target remainder)
      (treated base target remainder) := by
  refine mirrors_bind (fromElementPath_mirrors hfits base) ?_
  rintro element _ between ⟨rfl, -⟩ hfits
  refine mirrors_bind (treat_mirrors hfits element target) ?_
  rintro narrowed _ after ⟨rfl, hnarrowed⟩ hfits
  cases remainder with
  | none => exact mirrors_pure hfits rfl
  | some rest => exact navigate_mirrors hfits hnarrowed _ _

end Step
end EntityQuery.Interpretation

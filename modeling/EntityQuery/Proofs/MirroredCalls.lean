import EntityQuery.Proofs.BuiltCalls
import EntityQuery.Proofs.MirroredPaths

/-!
# Parts of expressions and clauses in both states

The steps of an expression or a clause that are decided by a name do the same in a state and in the
state with other types for some roots.

* `Step.mapEntry_mirrors`, `Step.collectionFunction_mirrors`, `Step.indexOfJoin_mirrors`.
* `Step.root_mirrors`, `Step.joinTarget_mirrors`, `Step.memberJoin_mirrors`.
-/

namespace EntityQuery.Interpretation.Step

open Resolved (AttributeReference Expression)

variable {schema : Schema} {choice : Choice} {before : Context}

/-! ## Expressions without operands -/

theorem parameter_mirrors (hfits : before.Fits choice) (written : Phrase.Parameter) :
    MirrorsExpression schema choice before (parameter written) (parameter written) := by
  have hnote : Mirrors (fun _ _ => True) schema choice before
      (change fun context => context.noteParameter written)
      (change fun context => context.noteParameter written) := by
    refine together_change fun after after' hchange hchange' => ?_
    simp only [Context.noteParameter] at hchange hchange'
    split at hchange
    · cases hchange
    split at hchange
    · cases hchange
    split at hchange'
    · cases hchange'
    split at hchange'
    · cases hchange'
    cases hchange
    cases hchange'
    exact ⟨trivial, rfl, .idle (hfits.idle (Nat.le_refl _) rfl rfl) rfl⟩
  refine mirrors_bind hnote ?_
  rintro _ _ between _ hfits
  exact mirrors_pure hfits rfl

theorem literal_mirrors (hfits : before.Fits choice) (token : Phrase.Literal) :
    MirrorsExpression schema choice before (literal token) (literal token) := by
  unfold literal
  split
  · exact mirrors_pure hfits rfl
  · exact together_throw _ _

theorem niladicName?_rebound (trail : Trail) (path : DottedName) :
    niladicName? (trail.rebound choice) path = niladicName? trail path := by
  rw [niladicName?, niladicName?, Trail.element?_rebound, Option.isNone_map]

theorem pathOrCall_mirrors (hfits : before.Fits choice) (dotted : DottedName) :
    MirrorsExpression schema choice before (pathOrCall dotted) (pathOrCall dotted) := by
  refine together_get_bind ?_
  rw [Context.trail_rebound, niladicName?_rebound]
  split
  · rename_i name hname
    refine mirrors_pure hfits ?_
    have htype := resultType?_lowered (niladicName?_some hname)
    rw [Becomes, Expression.rebuilt_call, List.map_nil, List.map_nil, htype]
    rfl
  · exact path_mirrors hfits dotted

theorem mapOf?_rebound (join : FromElement) : mapOf? (join.rebound choice) = mapOf? join := by
  rw [mapOf?, mapOf?, FromElement.collection?_rebound]

theorem mapEntry_mirrors (hfits : before.Fits choice) (function : MapFunction)
    (argument : DottedName) :
    MirrorsExpression schema choice before (mapEntry function argument)
      (mapEntry function argument) := by
  refine mirrors_bind (fromElementPath_mirrors hfits argument) ?_
  rintro join _ between ⟨rfl, -⟩ hfits
  rw [mapOf?_rebound]
  split
  · exact mirrors_pure hfits rfl
  · refine mirrors_bind (mirrors_comply hfits) ?_
    rintro _ _ after _ hfits
    exact mirrors_pure hfits rfl
  · exact mirrors_pure hfits rfl
  · exact mirrors_pure hfits rfl
  · exact together_throw _ _

theorem indexOfJoin_mirrors (hfits : before.Fits choice) (argument : Phrase.Expression) :
    MirrorsExpression schema choice before (indexOfJoin argument) (indexOfJoin argument) := by
  unfold indexOfJoin
  split
  · refine mirrors_bind (fromElementPath_mirrors hfits _) ?_
    rintro join _ between ⟨rfl, -⟩ hfits
    rw [FromElement.collection?_rebound]
    split
    · exact mirrors_pure hfits rfl
    · exact together_throw _ _
  · exact together_throw _ _

theorem identificationVariable_mirrors (hfits : before.Fits choice) (name : String) :
    Mirrors (Meets choice) schema choice before (identificationVariable name)
      (identificationVariable name) := by
  refine together_get_bind ?_
  rw [Context.trail_rebound, Trail.element?_rebound]
  cases helement : before.trail.element? name with
  | none => exact together_throw _ _
  | some element =>
    exact mirrors_pure hfits ⟨rfl, hfits.bound element (Trail.element?_some helement)⟩

/-! ## Calls -/

theorem advise_mirrors (hfits : before.Fits choice) (code : Report.Code) (message : String) :
    Mirrors (fun _ _ => True) schema choice before
      (modify fun context => context.advise code message)
      (modify fun context => context.advise code message) :=
  mirrors_modify hfits rfl (Nat.le_refl _) rfl rfl

theorem announceCollectionFunction_mirrors (hfits : before.Fits choice)
    (function : CollectionFunction) :
    Mirrors (fun _ _ => True) schema choice before (announceCollectionFunction function)
      (announceCollectionFunction function) := by
  unfold announceCollectionFunction
  split
  · refine mirrors_bind (mirrors_comply hfits) ?_
    rintro _ _ between _ hfits
    exact advise_mirrors hfits _ _
  · exact mirrors_pure hfits trivial

theorem announceCall_mirrors (hfits : before.Fits choice) (name : String)
    (generic standard : Bool) :
    Mirrors (fun _ _ => True) schema choice before (announceCall name generic standard)
      (announceCall name generic standard) := by
  unfold announceCall
  split
  · refine mirrors_bind (mirrors_comply hfits) ?_
    rintro _ _ between _ hfits
    exact advise_mirrors hfits _ _
  · exact mirrors_pure hfits trivial

theorem isPlural_rebuilt (attained : AttributeReference) (visit : FromElement → FromElement) :
    (attained.rebuilt true visit).isPlural = attained.isPlural := by
  rw [AttributeReference.isPlural, reference_type]
  rfl

theorem collectionFunction_mirrors (hfits : before.Fits choice) (function : CollectionFunction)
    (argument : Expression) :
    MirrorsExpression schema choice before (collectionFunction function argument)
      (collectionFunction function (argument.rebuilt true (FromElement.rebound choice))) := by
  cases argument with
  | reference collection =>
    rw [Expression.rebuilt_reference]
    simp only [collectionFunction]
    rw [isPlural_rebuilt, reference_type]
    split
    · refine mirrors_bind (mirrors_ofExcept (R := Eq) hfits
        fun _ _ htype htype' => Except.ok.inj (htype.symm.trans htype')) ?_
      rintro type? _ between rfl hfits
      exact mirrors_pure hfits rfl
    · exact together_throw _ _
  | _ => exact together_throw _ _

theorem pluralOperand_mirrors (hfits : before.Fits choice) (form : PluralForm)
    (operand : Expression) :
    Mirrors (Becomes (AttributeReference.rebuilt true (FromElement.rebound choice))) schema choice
      before (pluralOperand form operand)
      (pluralOperand form (operand.rebuilt true (FromElement.rebound choice))) := by
  cases operand with
  | reference collection =>
    rw [Expression.rebuilt_reference]
    simp only [pluralOperand]
    rw [isPlural_rebuilt]
    split
    · exact mirrors_pure hfits rfl
    · exact together_throw _ _
  | _ => exact together_throw _ _

theorem instantiationTarget_mirrors (hfits : before.Fits choice) (target : Phrase.Target)
    (items : List Phrase.SelectItem) :
    Mirrors Eq schema choice before (instantiationTarget target items)
      (instantiationTarget target items) := by
  unfold instantiationTarget
  split
  · exact mirrors_pure hfits rfl
  · split
    · exact together_throw _ _
    · exact mirrors_pure hfits rfl
  · refine together_read_bind ?_
    split
    · exact mirrors_pure hfits rfl
    · exact together_throw _ _

/-! ## Clauses -/

theorem entity_mirrors (hfits : before.Fits choice) (name : DottedName) :
    Mirrors Eq schema choice before (entity name) (entity name) := by
  refine together_read_bind ?_
  cases schema.entity? name.text with
  | none => exact together_throw _ _
  | some entity => exact mirrors_pure hfits rfl

theorem checkVariable_mirrors (hfits : before.Fits choice) (alias? : Option String) :
    Mirrors (fun _ _ => True) schema choice before (checkVariable alias?)
      (checkVariable alias?) := by
  unfold checkVariable
  split
  · exact mirrors_comply hfits
  · exact mirrors_pure hfits trivial

/-- A root for which no other type is chosen. -/
theorem root_mirrors (hfits : before.Fits choice) (id : SpaceId) (written : Phrase.Root) :
    Mirrors (Meets choice) schema choice before (root id written) (root id written) := by
  refine mirrors_bind (entity_mirrors hfits written.entity) ?_
  rintro entity _ between rfl hfits
  have hmake : ∀ {context : Context}, context.Fits choice →
      Mirrors (Meets choice) schema choice context
        (do
          checkVariable written.alias?
          makeRoot id entity written.alias?)
        (do
          checkVariable written.alias?
          makeRoot id entity written.alias?) := by
    intro context hcontext
    refine mirrors_bind (checkVariable_mirrors hcontext _) ?_
    rintro _ _ after _ hfits
    exact makeRoot_mirrors hfits id entity _
  dsimp only
  split
  · refine mirrors_bind (mirrors_comply hfits) ?_
    rintro _ _ after _ hfits
    split
    · exact together_throw_bind _ _ _
    · exact hmake hfits
  · exact hmake hfits

/-- The element that a written join starts from declares the joined attribute in both states. -/
theorem explicitJoin_mirrors (hfits : before.Fits choice) (id : SpaceId) (path : DottedName)
    (alias? : Option String) (narrowed? : Option EntityReference) (joinType : JoinType)
    (fetched : Bool) :
    Mirrors (Meets choice) schema choice before
      (explicitJoin id path alias? narrowed? joinType fetched)
      (explicitJoin id path alias? narrowed? joinType fetched) := by
  unfold explicitJoin
  split
  · exact together_throw _ _
  dsimp only
  split
  · exact together_throw_bind _ _ _
  refine mirrors_bind (fromElementParts_mirrors hfits _ _) ?_
  rintro source _ between ⟨rfl, hcovered⟩ hfits
  exact attributeJoin_mirrors hfits _ fun declared hdeclared => hcovered.declared? hdeclared

theorem joinTarget_mirrors (hfits : before.Fits choice) (id : SpaceId) (target : Phrase.JoinTarget)
    (alias? : Option String) (joinType : JoinType) (fetched : Bool) :
    Mirrors (Meets choice) schema choice before (joinTarget id target alias? joinType fetched)
      (joinTarget id target alias? joinType fetched) := by
  unfold joinTarget
  split
  · rename_i path
    have hjoins : joinsEntity (before.trail.rebound choice) path
        = joinsEntity before.trail path := by
      rw [joinsEntity, joinsEntity, Trail.element?_rebound, Option.isNone_map]
    refine together_get_bind ?_
    rw [Context.trail_rebound, hjoins]
    split
    · refine mirrors_bind (entity_mirrors hfits path) ?_
      rintro entity _ between rfl hfits
      exact entityJoin_mirrors hfits id alias? entity joinType
    · exact explicitJoin_mirrors hfits id path alias? none joinType fetched
  · rename_i path name
    refine mirrors_bind (treatTarget_mirrors hfits name) ?_
    rintro entity _ between rfl hfits
    exact explicitJoin_mirrors hfits id path alias? _ joinType fetched

/-- The check may fail in one of the states only; it leaves no trace. -/
theorem checkMember_mirrors (hfits : before.Fits choice) (path : DottedName) :
    Mirrors (fun _ _ => True) schema choice before (checkMember path) (checkMember path) := by
  unfold checkMember
  split
  · exact mirrors_pure hfits trivial
  · split
    · refine mirrors_bind (fromElementParts_mirrors hfits _ _) ?_
      rintro source _ between ⟨rfl, -⟩ hfits
      split
      · exact together_throw _ _
      split
      · exact together_throw_right _ _
      · exact mirrors_pure hfits trivial
    · exact mirrors_pure hfits trivial

theorem memberJoin_mirrors (hfits : before.Fits choice) (id : SpaceId) (path : DottedName)
    (alias? : Option String) :
    Mirrors (fun _ _ => True) schema choice before (memberJoin id path alias?)
      (memberJoin id path alias?) := by
  refine mirrors_bind (checkVariable_mirrors hfits alias?) ?_
  rintro _ _ first _ hfits
  refine mirrors_bind (checkMember_mirrors hfits path) ?_
  rintro _ _ second _ hfits
  refine mirrors_bind (explicitJoin_mirrors hfits id path alias? none .inner false) ?_
  rintro _ _ third _ hfits
  exact mirrors_pure hfits trivial

end EntityQuery.Interpretation.Step

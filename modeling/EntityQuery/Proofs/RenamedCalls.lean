import EntityQuery.Interpretation.Query
import EntityQuery.Proofs.RenamedPaths

/-!
# Parts of expressions and clauses with other variables

The steps of an expression or a clause that are decided by a name do the same with other variables:
the names that decide them are either no variables at all or mean the same before and after.

* `Step.pathOrCall_renamed`, `Step.mapEntry_renamed`, `Step.collectionFunction_renamed`,
  `Step.indexOfJoin_renamed`: expressions.
* `Step.root_renamed`, `Step.joinTarget_renamed`, `Step.memberJoin_renamed`: from clauses.
* `Step.implicitSelection_renamed`, `Step.resultVariable?_renamed`: result variables.
-/

namespace EntityQuery

open Resolved (AttributeReference Expression expressionsRenamed)

/-- The text of a path that begins with a variable is renamed at its beginning. -/
theorem DottedName.text_renamed {path : DottedName}
    (hpoint : ∀ name ∈ path.parts.head?, '.' ∉ name.toList) {rename : String → String}
    (hparts : path.parts ≠ []) :
    (path.renamed rename).text = renamedText rename path.text := by
  obtain ⟨parts⟩ := path
  match parts with
  | [] => exact absurd rfl hparts
  | [first] =>
    change (DottedName.mk [rename first]).text = _
    rw [text_single, text_single, renamedText_plain (hpoint first rfl)]
  | first :: second :: names =>
    change (DottedName.mk (rename first :: second :: names)).text = _
    rw [text_cons_cons, text_cons_cons, renamedText_point, renamedText_plain (hpoint first rfl)]

namespace Interpretation

variable {schema : Schema} {ρ : Renaming schema}

/-- A changed name is no reserved word, before and after. -/
theorem isReserved_renamed (name : String) :
    Catalogue.isReserved (ρ.rename name) = Catalogue.isReserved name := by
  by_cases hname : ρ.rename name = name
  · rw [hname]
  · rw [(ρ.free hname).2.reserved, (ρ.free hname).1.reserved]

/-- A changed name is no function without parentheses, before and after. -/
theorem isNiladicFunction_renamed (name : String) :
    Catalogue.isNiladicFunction (ρ.rename name) = Catalogue.isNiladicFunction name := by
  by_cases hname : ρ.rename name = name
  · rw [hname]
  · rw [(ρ.free hname).2.niladic, (ρ.free hname).1.niladic]

namespace Step

/-! ## Expressions without operands -/

theorem parameter_renamed (written : Phrase.Parameter) :
    RenamesExpression ρ (parameter written) (parameter written) := by
  refine corresponds_bind (corresponds_change fun context advisories hfits => ?_)
    fun _ _ _ => corresponds_pure rfl
  have hstyle : (context.renamed ρ.rename advisories).style? = context.style? := rfl
  unfold Context.noteParameter
  rw [hstyle]
  dsimp only
  split
  · exact .error rfl
  · split
    · exact .error rfl
    · exact .ok ⟨⟨hfits.trail, hfits.registered⟩, advisories, rfl⟩

theorem literal_renamed (token : Phrase.Literal) :
    RenamesExpression ρ (literal token) (literal token) := by
  unfold literal
  split
  · exact corresponds_pure rfl
  · exact corresponds_throw rfl

/-- A function without parentheses is none where its name is a variable. -/
theorem niladicName?_renamed {trail : Trail} (htrail : ∀ mark ∈ trail, ρ.Marks mark)
    {path : DottedName} (hfirst : ∀ name ∈ path.parts.head?, ρ.admits name) :
    niladicName? (trail.renamed ρ.rename) (path.renamed ρ.rename) = niladicName? trail path := by
  obtain ⟨parts⟩ := path
  match parts with
  | [] => rfl
  | first :: names =>
    change (if _ && Catalogue.isNiladicFunction (ρ.rename first)
      && (Trail.element? (trail.renamed ρ.rename) (ρ.rename first)).isNone
      then some (ρ.rename first) else none) = if _ && Catalogue.isNiladicFunction first
        && (trail.element? first).isNone then some first else none
    rw [isNiladicFunction_renamed, Trail.element?_renamed htrail (hfirst first rfl),
      Option.isNone_map]
    by_cases hname : ρ.rename first = first
    · rw [hname]
      rfl
    · rw [(ρ.free hname).1.niladic]
      simp

theorem pathOrCall_renamed {dotted : DottedName}
    (hfirst : ∀ name ∈ dotted.parts.head?, ρ.admits name) :
    RenamesExpression ρ (pathOrCall dotted) (pathOrCall (dotted.renamed ρ.rename)) := by
  refine corresponds_get_bind fun context advisories hfits => ?_
  have hname : niladicName? (context.renamed ρ.rename advisories).trail (dotted.renamed ρ.rename)
      = niladicName? context.trail dotted := niladicName?_renamed hfits.trail hfirst
  rw [hname]
  split
  · exact corresponds_pure rfl
  · exact path_renamed hfirst

theorem mapOf?_renamed (join : FromElement) : mapOf? (join.renamed ρ.rename) = mapOf? join := by
  rw [mapOf?, mapOf?, FromElement.collection?_renamed]

theorem mapEntry_renamed (function : MapFunction) {argument : DottedName}
    (hfirst : ∀ name ∈ argument.parts.head?, ρ.admits name) :
    RenamesExpression ρ (mapEntry function argument)
      (mapEntry function (argument.renamed ρ.rename)) := by
  refine corresponds_bind (fromElementPath_renamed hfirst) ?_
  rintro join _ ⟨rfl, -⟩
  rw [mapOf?_renamed]
  split
  · exact corresponds_pure rfl
  · exact corresponds_bind (corresponds_comply true rfl) fun _ _ _ => corresponds_pure rfl
  · exact corresponds_pure rfl
  · exact corresponds_pure rfl
  · exact corresponds_throw rfl

theorem indexOfJoin_renamed {argument : Phrase.Expression}
    (hfirst : ∀ dotted, argument = .path dotted → ∀ name ∈ dotted.parts.head?, ρ.admits name) :
    RenamesExpression ρ (indexOfJoin argument) (indexOfJoin (argument.renamed ρ.rename)) := by
  cases argument with
  | path dotted =>
    refine corresponds_bind (fromElementPath_renamed (hfirst dotted rfl)) ?_
    rintro join _ ⟨rfl, -⟩
    rw [FromElement.collection?_renamed]
    split
    · exact corresponds_pure rfl
    · exact corresponds_throw rfl
  | _ => exact corresponds_throw rfl

theorem identificationVariable_renamed {name : String} (hname : ρ.admits name) :
    Corresponds ρ ρ.Pairs (identificationVariable name)
      (identificationVariable (ρ.rename name)) := by
  refine corresponds_get_bind fun context advisories hfits => ?_
  have hfound : (context.renamed ρ.rename advisories).trail.element? (ρ.rename name)
      = (context.trail.element? name).map (FromElement.renamed ρ.rename) :=
    Trail.element?_renamed hfits.trail hname
  rw [hfound]
  cases helement : context.trail.element? name with
  | none => exact corresponds_throw rfl
  | some element =>
    exact corresponds_pure ⟨rfl, Trail.element?_knows hfits.trail helement⟩

/-! ## Calls and operators -/

/-- Advisories may name variables and are not compared. -/
theorem advise_renamed (code : Report.Code) (message message' : String) :
    Corresponds ρ (fun _ _ => True) (modify fun context => context.advise code message)
      (modify fun context => context.advise code message') :=
  corresponds_modify fun _ advisories hfits =>
    ⟨⟨hfits.trail, hfits.registered⟩, advisories ++ [⟨code, message'⟩], rfl⟩

theorem announceCollectionFunction_renamed (function : CollectionFunction) :
    Corresponds ρ (fun _ _ => True) (announceCollectionFunction function)
      (announceCollectionFunction function) := by
  unfold announceCollectionFunction
  split
  · exact corresponds_bind (corresponds_comply true rfl) fun _ _ _ => advise_renamed _ _ _
  · exact corresponds_pure trivial

theorem announceCall_renamed (name : String) (generic standard : Bool) :
    Corresponds ρ (fun _ _ => True) (announceCall name generic standard)
      (announceCall name generic standard) := by
  unfold announceCall
  split
  · exact corresponds_bind (corresponds_comply _ rfl) fun _ _ _ => advise_renamed _ _ _
  · exact corresponds_pure trivial

theorem isPlural_renamed (attained : AttributeReference) (rename : String → String) :
    (attained.renamed rename).isPlural = attained.isPlural := by
  rw [AttributeReference.isPlural, AttributeReference.type_renamed]
  rfl

theorem collectionFunction_renamed (function : CollectionFunction) (argument : Expression) :
    RenamesExpression ρ (collectionFunction function argument)
      (collectionFunction function (argument.renamed ρ.rename)) := by
  cases argument with
  | reference collection =>
    rw [Expression.renamed]
    simp only [collectionFunction]
    rw [isPlural_renamed, AttributeReference.type_renamed]
    split
    · refine corresponds_bind (corresponds_check _) ?_
      rintro type? _ rfl
      exact corresponds_pure rfl
    · exact corresponds_throw rfl
  | _ => exact corresponds_throw rfl

theorem pluralOperand_renamed (form : PluralForm) (operand : Expression) :
    Corresponds ρ (fun collection collection' => collection' = collection.renamed ρ.rename)
      (pluralOperand form operand) (pluralOperand form (operand.renamed ρ.rename)) := by
  cases operand with
  | reference collection =>
    rw [Expression.renamed]
    simp only [pluralOperand]
    rw [isPlural_renamed]
    split
    · exact corresponds_pure rfl
    · exact corresponds_throw rfl
  | _ => exact corresponds_throw rfl

theorem call_renamed (rename : String → String) (name : String) (distinct star standard : Bool)
    (arguments : List Expression) :
    call name distinct star standard (expressionsRenamed rename arguments)
      = (call name distinct star standard arguments).renamed rename := by
  rw [call, Resolved.types_renamed]
  rfl

theorem arithmetic_renamed (rename : String → String) (operator : ArithmeticOperator)
    (left right : Expression) :
    arithmetic operator (left.renamed rename) (right.renamed rename)
      = (arithmetic operator left right).renamed rename := by
  rw [arithmetic, Expression.type?_renamed, Expression.type?_renamed]
  rfl

theorem firstUnnamed?_renamed (rename : String → String) (items : List Phrase.SelectItem) :
    firstUnnamed? (Phrase.argumentsRenamed rename items) = firstUnnamed? items := by
  have haliases : (Phrase.argumentsRenamed rename items).map Phrase.SelectItem.alias?
      = items.map Phrase.SelectItem.alias? := by
    induction items with
    | nil => rfl
    | cons item items ih =>
      cases item with
      | mk written alias? => exact congrArg (alias? :: ·) ih
  rw [firstUnnamed?_eq, firstUnnamed?_eq, haliases]

theorem instantiationTarget_renamed (target : Phrase.Target) (items : List Phrase.SelectItem) :
    Corresponds ρ Eq (instantiationTarget target items)
      (instantiationTarget target (Phrase.argumentsRenamed ρ.rename items)) := by
  unfold instantiationTarget
  rw [firstUnnamed?_renamed]
  split
  · exact corresponds_pure rfl
  · split
    · exact corresponds_throw rfl
    · exact corresponds_pure rfl
  · refine corresponds_read_bind ?_
    split
    · exact corresponds_pure rfl
    · exact corresponds_throw rfl

/-! ## From clauses -/

/-- Two names of one entity. -/
theorem entity_corresponds {name name' : DottedName}
    (hsame : schema.entity? name'.text = schema.entity? name.text) :
    Corresponds ρ (fun entity entity' => entity' = entity ∧ schema.Gives entity.type)
      (entity name) (entity name') := by
  refine corresponds_read_bind ?_
  rw [hsame]
  cases hentity : schema.entity? name.text with
  | none => exact corresponds_throw rfl
  | some entity => exact corresponds_pure ⟨rfl, .entity hentity⟩

theorem checkVariable_renamed (alias? : Option String) :
    Corresponds ρ (fun _ _ => True) (checkVariable alias?)
      (checkVariable (alias?.map ρ.rename)) := by
  cases alias? with
  | none => exact corresponds_pure trivial
  | some aliasName =>
    change Corresponds ρ _ _ (comply (Catalogue.isReserved (ρ.rename aliasName)) _)
    rw [isReserved_renamed]
    exact corresponds_comply _ rfl

theorem root_renamed (id : SpaceId) {written : Phrase.Root}
    (hname : ∀ name ∈ written.alias?, ρ.Bound name) :
    Corresponds ρ ρ.Pairs (root id written) (root id (written.renamed ρ.rename)) := by
  refine corresponds_bind (entity_corresponds rfl) ?_
  rintro _ entity ⟨rfl, hentity⟩
  have hmake : Corresponds ρ ρ.Pairs
      (do
        checkVariable written.alias?
        makeRoot id entity written.alias?)
      (do
        checkVariable (written.alias?.map ρ.rename)
        makeRoot id entity (written.alias?.map ρ.rename)) :=
    corresponds_bind (checkVariable_renamed written.alias?)
      fun _ _ _ => makeRoot_renamed id hentity hname
  dsimp only
  split
  · refine corresponds_bind (corresponds_comply true rfl) fun _ _ _ => ?_
    split
    · exact corresponds_throw_bind rfl
    · exact hmake
  · exact hmake

theorem explicitJoin_renamed (id : SpaceId) {path : DottedName}
    (hfirst : ∀ name ∈ path.parts.head?, ρ.admits name) {alias? : Option String}
    (hname : ∀ name ∈ alias?, ρ.Bound name) {narrowed? : Option EntityReference}
    (hnarrowed : ∀ entity ∈ narrowed?, schema.Gives entity.type) (joinType : JoinType)
    (fetched : Bool) :
    Corresponds ρ ρ.Pairs (explicitJoin id path alias? narrowed? joinType fetched)
      (explicitJoin id (path.renamed ρ.rename) (alias?.map ρ.rename) narrowed? joinType
        fetched) := by
  by_cases hsingle : path.parts.dropLast = []
  · obtain ⟨parts⟩ := path
    match parts with
    | [] => exact corresponds_throw rfl
    | [_] => exact corresponds_throw_bind rfl
    | _ :: _ :: _ => cases hsingle
  · have hempty : path.parts.dropLast.isEmpty = false := List.isEmpty_eq_false_iff.mpr hsingle
    have hempty' : (path.renamed ρ.rename).parts.dropLast.isEmpty = false :=
      (DottedName.isEmpty_dropLast_renamed path ρ.rename).trans hempty
    unfold explicitJoin
    rw [DottedName.getLast?_renamed hsingle]
    cases path.parts.getLast? with
    | none => exact corresponds_throw rfl
    | some name =>
      dsimp only
      rw [hempty, hempty', if_neg Bool.false_ne_true, if_neg Bool.false_ne_true,
        DottedName.dropLast_renamed]
      have hhead : path.parts.dropLast.head? = path.parts.head? :=
        DottedName.head?_dropLast hsingle
      refine corresponds_bind (fromElementParts_renamed
        (fun first h => hfirst first (hhead ▸ h)) path (path.renamed ρ.rename)) ?_
      rintro source _ ⟨⟨rfl, hsource⟩, hpoint⟩
      have htext : (path.renamed ρ.rename).text = renamedText ρ.rename path.text := by
        refine DottedName.text_renamed (fun first h => hpoint first (hhead ▸ h)) fun hnil => ?_
        rw [hnil] at hsingle
        exact hsingle rfl
      rw [htext, FromElement.type_renamed]
      exact attributeJoin_renamed ⟨hname, hnarrowed, hsource⟩

theorem joinsEntity_renamed {trail : Trail} (htrail : ∀ mark ∈ trail, ρ.Marks mark)
    {path : DottedName} (hfirst : ∀ name ∈ path.parts.head?, ρ.admits name) :
    joinsEntity (trail.renamed ρ.rename) (path.renamed ρ.rename) = joinsEntity trail path := by
  obtain ⟨parts⟩ := path
  match parts with
  | [] => rfl
  | first :: names =>
    change (_ && (Trail.element? (trail.renamed ρ.rename) (ρ.rename first)).isNone)
      = (_ && (trail.element? first).isNone)
    rw [Trail.element?_renamed htrail (hfirst first rfl), Option.isNone_map]
    rfl

theorem joinTarget_renamed (id : SpaceId) {target : Phrase.JoinTarget}
    (hfirst : ∀ name ∈ target.path.parts.head?, ρ.admits name) {alias? : Option String}
    (hname : ∀ name ∈ alias?, ρ.Bound name) (joinType : JoinType) (fetched : Bool) :
    Corresponds ρ ρ.Pairs (joinTarget id target alias? joinType fetched)
      (joinTarget id (target.renamed ρ.rename) (alias?.map ρ.rename) joinType fetched) := by
  cases target with
  | plain path =>
    refine corresponds_get_bind fun context advisories hfits => ?_
    have hjoins : joinsEntity (context.renamed ρ.rename advisories).trail (path.renamed ρ.rename)
        = joinsEntity context.trail path := joinsEntity_renamed hfits.trail hfirst
    rw [hjoins]
    split
    · refine corresponds_bind (entity_corresponds (entity?_renamed path)) ?_
      rintro _ entity ⟨rfl, hentity⟩
      exact entityJoin_renamed id hentity joinType hname
    · exact explicitJoin_renamed id hfirst hname (fun _ h => by cases h) joinType fetched
  | treated path name =>
    refine corresponds_bind (treatTarget_renamed name) ?_
    rintro _ entity ⟨rfl, hentity⟩
    refine explicitJoin_renamed id hfirst hname (fun narrowed h => ?_) joinType fetched
    cases h
    exact hentity

theorem checkMember_renamed {path : DottedName}
    (hfirst : ∀ name ∈ path.parts.head?, ρ.admits name) :
    Corresponds ρ (fun _ _ => True) (checkMember path) (checkMember (path.renamed ρ.rename)) := by
  by_cases hsingle : path.parts.dropLast = []
  · obtain ⟨parts⟩ := path
    match parts with
    | [] => exact corresponds_pure trivial
    | [_] => exact corresponds_pure trivial
    | _ :: _ :: _ => cases hsingle
  · have hempty : path.parts.dropLast.isEmpty = false := List.isEmpty_eq_false_iff.mpr hsingle
    unfold checkMember
    rw [DottedName.getLast?_renamed hsingle]
    cases path.parts.getLast? with
    | none => exact corresponds_pure trivial
    | some name =>
      dsimp only
      rw [hempty, DottedName.isEmpty_dropLast_renamed, hempty]
      simp only [Bool.not_false, if_true]
      rw [DottedName.dropLast_renamed]
      have hhead : path.parts.dropLast.head? = path.parts.head? :=
        DottedName.head?_dropLast hsingle
      refine corresponds_bind (fromElementParts_renamed
        (fun first h => hfirst first (hhead ▸ h)) path (path.renamed ρ.rename)) ?_
      rintro source _ ⟨⟨rfl, -⟩, -⟩
      rw [FromElement.type_renamed]
      split
      · exact corresponds_throw rfl
      · exact corresponds_pure trivial

theorem memberJoin_renamed (id : SpaceId) {path : DottedName}
    (hfirst : ∀ name ∈ path.parts.head?, ρ.admits name) {alias? : Option String}
    (hname : ∀ name ∈ alias?, ρ.Bound name) :
    Corresponds ρ (fun _ _ => True) (memberJoin id path alias?)
      (memberJoin id (path.renamed ρ.rename) (alias?.map ρ.rename)) := by
  refine corresponds_bind (checkVariable_renamed alias?) fun _ _ _ => ?_
  refine corresponds_bind (checkMember_renamed hfirst) fun _ _ _ => ?_
  exact corresponds_bind (explicitJoin_renamed id hfirst hname (fun _ h => by cases h) .inner
    false) fun _ _ _ => corresponds_pure trivial

/-! ## Result variables -/

theorem implicitSelection_renamed :
    Corresponds ρ (fun selections selections' => selections'
        = Resolved.selectionsRenamed ρ.rename selections) implicitSelection implicitSelection := by
  refine corresponds_get_bind fun context advisories _ => ?_
  have hroot : (context.renamed ρ.rename advisories).levels.firstRoot?
      = context.levels.firstRoot?.map (FromElement.renamed ρ.rename) :=
    Levels.firstRoot?_renamed context.levels
  rw [hroot]
  cases context.levels.firstRoot? with
  | none => exact corresponds_throw rfl
  | some root =>
    refine corresponds_bind (advise_renamed _ _ _) fun _ _ _ => ?_
    refine corresponds_bind (corresponds_comply true rfl) fun _ _ _ => ?_
    have hbind : Corresponds ρ (fun _ _ => True)
        (bindSelection 0 (.mk (.element root) none))
        (bindSelection 0 ((Resolved.Selection.mk (.element root) none).renamed ρ.rename)) :=
      corresponds_bindSelection 0 fun _ h => by cases h
    exact corresponds_bind hbind fun _ _ _ => corresponds_pure rfl

/-- An item of an order names a result variable where it did before. -/
theorem resultVariable?_renamed {trail : Trail} (htrail : ∀ mark ∈ trail, ρ.Marks mark)
    {written : Phrase.Expression}
    (hfirst : ∀ dotted, written = .path dotted → ∀ name ∈ dotted.parts.head?, ρ.admits name) :
    resultVariable? (trail.renamed ρ.rename) (written.renamed ρ.rename)
      = (resultVariable? trail written).map (Expression.renamed ρ.rename) := by
  cases written with
  | path dotted =>
    obtain ⟨parts⟩ := dotted
    match parts with
    | [] => rfl
    | [first] =>
      change (Trail.selection? (trail.renamed ρ.rename) (ρ.rename first)).map _
        = ((trail.selection? first).map _).map _
      rw [Trail.selection?_renamed htrail (hfirst _ rfl first rfl), Option.map_map, Option.map_map]
      refine congrArg (Option.map · _) (funext fun result => ?_)
      simp only [Function.comp_apply, ResultVariable.renamed, Expression.renamed,
        Expression.type?_renamed]
      rfl
    | _ :: _ :: _ => rfl
  | _ => rfl

end Step
end Interpretation
end EntityQuery

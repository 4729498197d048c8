import EntityQuery.Interpretation.Query
import EntityQuery.Proofs.BuiltCalls
import EntityQuery.Proofs.EmbeddedPaths
import EntityQuery.Proofs.RenamedPhrases

/-!
# Parts of expressions and clauses of an embedded query

The steps of an expression or a clause that are decided by a name do within another query what they
do alone: the names that decide them are looked up in the query itself.

* `Step.parameter_embeds`, `Step.pathOrCall_embeds`, `Step.mapEntry_embeds`,
  `Step.collectionFunction_embeds`, `Step.indexOfJoin_embeds`: expressions.
* `Step.root_embeds`, `Step.joinTarget_embeds`, `Step.memberJoin_embeds`: from clauses.
* `Step.implicitSelection_embeds`, `Step.resultVariable?_embedded`: result variables.
-/

namespace EntityQuery.Interpretation

open Resolved (AttributeReference Expression)

variable {schema : Schema} {around : Context}

/-- The text of a path with a plain name at its beginning. -/
theorem Context.embeddedName_text {path : DottedName} (hparts : path.parts ≠ [])
    (h : ∀ name ∈ path.parts.head?, PlainName name) :
    around.embeddedName path.text = path.text := by
  obtain ⟨parts⟩ := path
  match parts with
  | [] => exact absurd rfl hparts
  | [first] => rw [DottedName.text_single, around.embeddedName_plain (h first rfl)]
  | first :: second :: names =>
    rw [DottedName.text_cons_cons, around.embeddedName_point,
      around.embeddedName_plain (h first rfl)]

/-- A parameter is in the style that is fixed, if there is one, and fixes its own. -/
theorem Context.noteParameter_ok {context after : Context} {parameter : Phrase.Parameter} :
    context.noteParameter parameter = .ok after ↔
      parameter ≠ .positional 0 ∧ (∀ fixed ∈ context.style?, fixed = .ofParameter parameter)
        ∧ after = { context with style? := some (.ofParameter parameter) } := by
  have hmixed : (context.style?.any fun fixed => fixed != .ofParameter parameter) = true
      ↔ ¬ ∀ fixed ∈ context.style?, fixed = .ofParameter parameter := by
    cases context.style? with
    | none => simp
    | some fixed => simp
  rw [noteParameter]
  by_cases hzero : parameter = .positional 0
  · rw [if_pos hzero]
    refine ⟨fun h => ?_, fun h => absurd hzero h.1⟩
    cases h
  rw [if_neg hzero]
  by_cases hsame : ∀ fixed ∈ context.style?, fixed = .ofParameter parameter
  · rw [if_neg (hmixed.not.mpr (not_not.mpr hsame)), Except.ok.injEq]
    exact ⟨fun h => ⟨hzero, hsame, h.symm⟩, fun h => h.2.2.symm⟩
  · rw [if_pos (hmixed.mpr hsame)]
    refine ⟨fun h => ?_, fun h => absurd h.2.1 hsame⟩
    cases h

namespace Step

/-! ## Expressions without operands -/

/-- A parameter of the query is in the style that is fixed around, if there is one. -/
theorem parameter_embeds (written : Phrase.Parameter) :
    EmbedsExpression schema around (parameter written) (parameter written) := by
  have hnote : Embeds schema around id
      (Step.change fun context => context.noteParameter written)
      (Step.change fun context => context.noteParameter written) := by
    refine embeds_change fun context after _ hnoted => ?_
    obtain ⟨hzero, hown, rfl⟩ := Context.noteParameter_ok.mp hnoted
    refine ⟨⟨.of_levels rfl rfl rfl, fun style h => congrArg some (hown style h).symm⟩,
      fun hshares advisories => ?_⟩
    refine Context.noteParameter_ok.mpr ⟨hzero, fun fixed hfixed => ?_, rfl⟩
    have hfixed' : fixed ∈ context.style?.or around.style? := hfixed
    cases hstyle : context.style? with
    | some style =>
      rw [hstyle, Option.some_or] at hfixed'
      exact hown fixed (hstyle ▸ hfixed')
    | none =>
      rw [hstyle, Option.none_or] at hfixed'
      exact hshares _ rfl fixed hfixed'
  exact embeds_bind hnote fun _ => embeds_pure (Expression.rebuilt_parameter written).symm

theorem literal_embeds (token : Phrase.Literal) :
    EmbedsExpression schema around (literal token) (literal token) := by
  unfold literal
  cases Resolved.Literal.ofPhrase token with
  | ok value => exact embeds_pure (Expression.rebuilt_literal value).symm
  | error fault => exact embeds_throw _ _

/-- A function without parentheses is none where its name is a variable of the query. -/
theorem niladicName?_embedded {path : DottedName}
    (hfirst : ∀ name ∈ path.parts.head?, around.Ignores name) (trail : Trail) :
    niladicName? (trail.embedded around) path = niladicName? trail path := by
  obtain ⟨parts⟩ := path
  match parts with
  | [] => rfl
  | first :: names =>
    obtain ⟨hplain, hfree⟩ := hfirst first rfl
    have hfound : ((trail.embedded around).element? first).isNone
        = (trail.element? first).isNone := by
      rw [Trail.element?_embedded hplain hfree, Option.isNone_map]
    have hname : (DottedName.mk (first :: names)).first = first := rfl
    rw [niladicName?, hname, hfound, niladicName?, hname]

theorem pathOrCall_embeds (haround : around.Numbered) {dotted : DottedName}
    (hfirst : ∀ name ∈ dotted.parts.head?, around.Ignores name) :
    EmbedsExpression schema around (pathOrCall dotted) (pathOrCall dotted) := by
  refine embeds_get_bind fun context advisories hinside => ?_
  have hname : niladicName? (context.embedded around advisories).trail dotted
      = niladicName? context.trail dotted := niladicName?_embedded hfirst context.trail
  rw [hname]
  cases niladicName? context.trail dotted with
  | none => exact path_embeds haround hfirst context hinside
  | some name =>
    refine embedsAt_pure context ?_
    rw [Expression.rebuilt_call]
    rfl

theorem mapOf?_embedded (join : FromElement) : mapOf? (join.embedded around) = mapOf? join := by
  rw [mapOf?, mapOf?, FromElement.collection?_embedded]

theorem mapEntry_embeds (hlenient : schema.strict = false) (haround : around.Numbered)
    (function : MapFunction) {argument : DottedName}
    (hfirst : ∀ name ∈ argument.parts.head?, around.Ignores name) :
    EmbedsExpression schema around (mapEntry function argument) (mapEntry function argument) := by
  refine embeds_bind (fromElementPath_embeds haround hfirst) fun join => ?_
  rw [mapOf?_embedded]
  split
  · exact embeds_pure (Expression.rebuilt_mapEntry _ join _).symm
  · exact embeds_bind (embeds_comply hlenient _ _ _ _)
      fun _ => embeds_pure (Expression.rebuilt_element join).symm
  · exact embeds_pure (Expression.rebuilt_mapEntry _ join _).symm
  · exact embeds_pure (Expression.rebuilt_mapEntry _ join _).symm
  · exact embeds_throw _ _

theorem indexOfJoin_embeds (haround : around.Numbered) {argument : Phrase.Expression}
    (hfirst : ∀ dotted, argument = .path dotted →
      ∀ name ∈ dotted.parts.head?, around.Ignores name) :
    EmbedsExpression schema around (indexOfJoin argument) (indexOfJoin argument) := by
  cases argument with
  | path dotted =>
    refine embeds_bind (fromElementPath_embeds haround (hfirst dotted rfl)) fun join => ?_
    rw [FromElement.collection?_embedded]
    split
    · refine embeds_pure ?_
      rw [Expression.rebuilt_collectionFunction, Expression.rebuilt_element]
    · exact embeds_throw _ _
  | _ => exact embeds_throw _ _

theorem identificationVariable_embeds {name : String} (hname : around.Ignores name) :
    Embeds schema around (FromElement.embedded around) (identificationVariable name)
      (identificationVariable name) := by
  refine embeds_get_bind fun context advisories hinside => ?_
  have hfound : (context.embedded around advisories).trail.element? name
      = (context.trail.element? name).map (FromElement.embedded around) :=
    Trail.element?_embedded hname.plain hname.free context.trail
  rw [hfound]
  cases context.trail.element? name with
  | none => exact embeds_throw _ _ context hinside
  | some element => exact embedsAt_pure context rfl

/-! ## Calls and operators -/

theorem announceCollectionFunction_embeds (hlenient : schema.strict = false)
    (function : CollectionFunction) :
    Embeds schema around id (announceCollectionFunction function)
      (announceCollectionFunction function) := by
  unfold announceCollectionFunction
  split
  · exact embeds_bind (embeds_comply hlenient _ _ _ _) fun _ => embeds_advise _ _ _
  · exact embeds_pure rfl

theorem announceCall_embeds (hlenient : schema.strict = false) (name : String)
    (generic standard : Bool) :
    Embeds schema around id (announceCall name generic standard)
      (announceCall name generic standard) := by
  unfold announceCall
  split
  · exact embeds_bind (embeds_comply hlenient _ _ _ _) fun _ => embeds_advise _ _ _
  · exact embeds_pure rfl

theorem collectionFunction_embeds (function : CollectionFunction) (argument : Expression) :
    EmbedsExpression schema around (collectionFunction function argument)
      (collectionFunction function (argument.rebuilt false (FromElement.embedded around))) := by
  cases argument with
  | reference collection =>
    rw [Expression.rebuilt_reference]
    simp only [collectionFunction]
    rw [AttributeReference.isPlural_rebuilt, AttributeReference.type_rebuilt]
    split
    · have hchecked : Embeds schema around id
          (ofExcept (collectionFunctionType function collection.type))
          (ofExcept (collectionFunctionType function collection.type)) :=
        embeds_ofExcept fun _ h => h
      refine embeds_bind hchecked fun type? => embeds_pure ?_
      rw [Expression.rebuilt_collectionFunction, Expression.rebuilt_reference]
      rfl
    · exact embeds_throw _ _
  | _ => exact embeds_throw _ _

theorem pluralOperand_embeds (form : PluralForm) (operand : Expression) :
    Embeds schema around (AttributeReference.rebuilt false (FromElement.embedded around))
      (pluralOperand form operand)
      (pluralOperand form (operand.rebuilt false (FromElement.embedded around))) := by
  cases operand with
  | reference collection =>
    rw [Expression.rebuilt_reference]
    simp only [pluralOperand]
    rw [AttributeReference.isPlural_rebuilt]
    split
    · exact embeds_pure rfl
    · exact embeds_throw _ _
  | _ => exact embeds_throw _ _

theorem call_embedded (name : String) (distinct star standard : Bool)
    (arguments : List Expression) :
    call name distinct star standard
        (arguments.map (Expression.rebuilt false (FromElement.embedded around)))
      = (call name distinct star standard arguments).rebuilt false
        (FromElement.embedded around) := by
  rw [call, Resolved.types_rebuilt fun _ => FromElement.type_embedded, call,
    Expression.rebuilt_call]
  rfl

theorem arithmetic_embedded (operator : ArithmeticOperator) (left right : Expression) :
    arithmetic operator (left.rebuilt false (FromElement.embedded around))
        (right.rebuilt false (FromElement.embedded around))
      = (arithmetic operator left right).rebuilt false (FromElement.embedded around) := by
  rw [arithmetic, Expression.type?_rebuilt fun _ => FromElement.type_embedded,
    Expression.type?_rebuilt fun _ => FromElement.type_embedded, arithmetic,
    Expression.rebuilt_arithmetic]
  rfl

theorem instantiationTarget_embeds (target : Phrase.Target) (items : List Phrase.SelectItem) :
    Embeds schema around id (instantiationTarget target items)
      (instantiationTarget target items) := by
  unfold instantiationTarget
  split
  · exact embeds_pure rfl
  · split
    · exact embeds_throw _ _
    · exact embeds_pure rfl
  · refine embeds_read_bind ?_
    split
    · exact embeds_pure rfl
    · exact embeds_throw _ _

/-! ## From clauses -/

theorem entity_embeds (name : DottedName) :
    Embeds schema around id (entity name) (entity name) := by
  refine embeds_read_bind ?_
  cases schema.entity? name.text with
  | none => exact embeds_throw _ _
  | some entity => exact embeds_pure rfl

theorem checkVariable_embeds (hlenient : schema.strict = false) (alias? : Option String) :
    Embeds schema around id (checkVariable alias?) (checkVariable alias?) := by
  cases alias? with
  | none => exact embeds_pure rfl
  | some aliasName => exact embeds_comply hlenient _ _ _ _

/-- A root that is unmapped and polymorphic is out of place in a nested query. -/
theorem root_embeds (hlenient : schema.strict = false) (space : SpaceId) {written : Phrase.Root}
    (hname : ∀ name ∈ written.alias?, PlainName name)
    (hmapped : space.level = 0 → ∀ entity, schema.entity? written.entity.text = some entity →
      entity.isPolymorphic = false) :
    Embeds schema around (FromElement.embedded around) (root space written)
      (root (space.embedded around) written) := by
  intro before hinside
  have hends : Ends schema before (entity written.entity) fun entity _ =>
      schema.entity? written.entity.text = some entity := ends_entity fun _ h => h
  refine embedsAt_bind (entity_embeds written.entity before hinside) ?_
  rintro _ entity between hentity hprogresses rfl
  have hbetween : between.Inside := hinside.progress hprogresses
  have hfound : schema.entity? written.entity.text = some entity := hends entity between hentity
  have hmake : Embeds schema around (FromElement.embedded around)
      (do
        checkVariable written.alias?
        makeRoot space entity written.alias?)
      (do
        checkVariable written.alias?
        makeRoot (space.embedded around) entity written.alias?) :=
    embeds_bind (checkVariable_embeds hlenient written.alias?)
      fun _ => makeRoot_embeds space entity hname
  dsimp only [id]
  by_cases hpolymorphic : entity.isPolymorphic = true
  · rw [if_pos hpolymorphic, if_pos hpolymorphic]
    refine embeds_bind (embeds_comply hlenient _ _ _ _) (fun _ => ?_) between hbetween
    have hlevel : space.level > 0 := by
      refine Nat.pos_of_ne_zero fun hzero => ?_
      rw [hmapped hzero entity hfound] at hpolymorphic
      cases hpolymorphic
    rw [if_pos hlevel]
    exact embeds_throw_bind _ _ _
  · rw [if_neg hpolymorphic, if_neg hpolymorphic]
    exact hmake between hbetween

theorem explicitJoin_embeds (haround : around.Numbered) (space : SpaceId) {path : DottedName}
    (hfirst : ∀ name ∈ path.parts.head?, around.Ignores name) {alias? : Option String}
    (hname : ∀ name ∈ alias?, PlainName name) (narrowed? : Option EntityReference)
    (joinType : JoinType) (fetched : Bool) :
    Embeds schema around (FromElement.embedded around)
      (explicitJoin space path alias? narrowed? joinType fetched)
      (explicitJoin (space.embedded around) path alias? narrowed? joinType fetched) := by
  unfold explicitJoin
  cases path.parts.getLast? with
  | none => exact embeds_throw _ _
  | some name =>
    dsimp only
    by_cases hsingle : path.parts.dropLast = []
    · rw [hsingle]
      exact embeds_throw_bind _ _ _
    have hempty : ¬ path.parts.dropLast.isEmpty = true := mt List.isEmpty_iff.mp hsingle
    have hhead : path.parts.dropLast.head? = path.parts.head? := DottedName.head?_dropLast hsingle
    rw [if_neg hempty, if_neg hempty]
    refine embeds_bind (fromElementParts_embeds haround (fun first h => hfirst first (hhead ▸ h))
      path) fun source => ?_
    have htext : around.embeddedName path.text = path.text := by
      refine Context.embeddedName_text (fun hnil => ?_) fun first h => (hfirst first h).plain
      rw [hnil] at hsingle
      exact hsingle rfl
    let request : JoinRequest :=
      ⟨space, alias?, source.type.declared? name, narrowed?, path.text, joinType, source, fetched,
        false⟩
    have hjoin : Embeds schema around (FromElement.embedded around) (attributeJoin request)
        (attributeJoin (request.embedded around)) := attributeJoin_embeds haround hname
    rw [JoinRequest.embedded] at hjoin
    simp only [request, htext] at hjoin
    rw [FromElement.type_embedded]
    exact hjoin

theorem joinsEntity_embedded {path : DottedName}
    (hfirst : ∀ name ∈ path.parts.head?, around.Ignores name) (trail : Trail) :
    joinsEntity (trail.embedded around) path = joinsEntity trail path := by
  obtain ⟨parts⟩ := path
  match parts with
  | [] => rfl
  | first :: names =>
    obtain ⟨hplain, hfree⟩ := hfirst first rfl
    have hname : (DottedName.mk (first :: names)).first = first := rfl
    rw [joinsEntity, hname, Trail.element?_embedded hplain hfree, Option.isNone_map, joinsEntity,
      hname]

theorem joinTarget_embeds (haround : around.Numbered) (space : SpaceId)
    {target : Phrase.JoinTarget}
    (hfirst : ∀ name ∈ target.path.parts.head?, around.Ignores name) {alias? : Option String}
    (hname : ∀ name ∈ alias?, PlainName name) (joinType : JoinType) (fetched : Bool) :
    Embeds schema around (FromElement.embedded around)
      (joinTarget space target alias? joinType fetched)
      (joinTarget (space.embedded around) target alias? joinType fetched) := by
  cases target with
  | plain path =>
    refine embeds_get_bind fun context advisories hinside => ?_
    have hjoins : joinsEntity (context.embedded around advisories).trail path
        = joinsEntity context.trail path := joinsEntity_embedded hfirst context.trail
    rw [hjoins]
    split
    · exact embeds_bind (entity_embeds path)
        (fun entity => entityJoin_embeds space entity joinType hname) context hinside
    · exact explicitJoin_embeds haround space hfirst hname none joinType fetched context hinside
  | treated path name =>
    exact embeds_bind (treatTarget_embeds name) fun narrowed =>
      explicitJoin_embeds haround space hfirst hname (some narrowed) joinType fetched

theorem checkMember_embeds (haround : around.Numbered) {path : DottedName}
    (hfirst : ∀ name ∈ path.parts.head?, around.Ignores name) :
    Embeds schema around id (checkMember path) (checkMember path) := by
  unfold checkMember
  cases path.parts.getLast? with
  | none => exact embeds_pure rfl
  | some name =>
    dsimp only
    by_cases hsingle : path.parts.dropLast = []
    · rw [hsingle]
      exact embeds_pure rfl
    have hmember : (!path.parts.dropLast.isEmpty) = true := by
      rw [List.isEmpty_eq_false_iff.mpr hsingle]
      rfl
    have hhead : path.parts.dropLast.head? = path.parts.head? := DottedName.head?_dropLast hsingle
    rw [if_pos hmember]
    refine embeds_bind (fromElementParts_embeds haround (fun first h => hfirst first (hhead ▸ h))
      path) fun source => ?_
    rw [FromElement.type_embedded]
    split
    · exact embeds_throw _ _
    · exact embeds_pure rfl

theorem memberJoin_embeds (hlenient : schema.strict = false) (haround : around.Numbered)
    (space : SpaceId) {path : DottedName}
    (hfirst : ∀ name ∈ path.parts.head?, around.Ignores name) {alias? : Option String}
    (hname : ∀ name ∈ alias?, PlainName name) :
    Embeds schema around id (memberJoin space path alias?)
      (memberJoin (space.embedded around) path alias?) := by
  refine embeds_bind (checkVariable_embeds hlenient alias?) fun _ => ?_
  refine embeds_bind (checkMember_embeds haround hfirst) fun _ => ?_
  exact embeds_bind (explicitJoin_embeds haround space hfirst hname none .inner false)
    fun _ => embeds_pure rfl

/-! ## Result variables -/

theorem implicitSelection_embeds (hlenient : schema.strict = false) :
    Embeds schema around
      (List.map (Resolved.Selection.rebuilt false (FromElement.embedded around)))
      implicitSelection implicitSelection := by
  refine embeds_get_bind fun context advisories hinside => ?_
  cases hroot : context.levels.firstRoot? with
  | none => exact embeds_throw _ _ context hinside
  | some root =>
    have hembedded : (context.embedded around advisories).levels.firstRoot?
        = some (root.embedded around) := Levels.firstRoot?_embedded hroot
    rw [hembedded]
    refine embeds_bind (embeds_advise _ _ _) (fun _ => ?_) context hinside
    refine embeds_bind (embeds_comply hlenient _ _ _ _) fun _ => ?_
    have hselection : (Resolved.Selection.mk (.element root) none).rebuilt false
        (FromElement.embedded around) = .mk (.element (root.embedded around)) none := rfl
    rw [← hselection]
    exact embeds_bind (embeds_bindSelection 0 fun _ h => by cases h) fun _ => embeds_pure rfl

/-- An item of an order names a result variable of the query where it does alone. -/
theorem resultVariable?_embedded {trail : Trail} (h : trail.Entered)
    (written : Phrase.Expression) :
    resultVariable? (trail.embedded around) written
      = (resultVariable? trail written).map
        (Expression.rebuilt false (FromElement.embedded around)) := by
  cases written with
  | path dotted =>
    simp only [resultVariable?]
    rw [Trail.selection?_embedded h]
    split
    · rw [Option.map_map, Option.map_map]
      refine congrArg (Option.map · _) (funext fun result => ?_)
      have htype : (result.embedded around).expression.type? = result.expression.type? :=
        Expression.type?_rebuilt (fun _ => FromElement.type_embedded) result.expression
      rw [Function.comp_apply, Function.comp_apply, htype, Expression.rebuilt_selection]
      rfl
    · rfl
  | _ => rfl

end Step
end EntityQuery.Interpretation

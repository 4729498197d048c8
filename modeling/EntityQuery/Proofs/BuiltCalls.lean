import EntityQuery.Proofs.BuiltPaths

/-!
# Parts of expressions and clauses

The steps of an expression or a clause that are decided by a name: calls, parts of a map, functions
on collections, joins and roots. What they build meets the rules, and what they are given is kept.

* `Step.mapEntry_builds`, `Step.collectionFunction_builds`, `Step.indexOfJoin_builds`.
* `Step.root_ends`, `Step.joinTarget_finds`, `Step.memberJoin_ends`, `Step.implicitSelection_ends`.
-/

namespace EntityQuery.Interpretation.Step

open Resolved (AttributeReference Expression)

variable {schema : Schema} {clean : Prop} {before between : Context}

/-! ## Expressions without operands -/

theorem parameter_builds (hsound : before.Sound schema clean) (written : Phrase.Parameter) :
    BuildsExpression schema clean before (parameter written) := by
  refine ends_bind (ends_change (Q := fun _ after => before.Advances schema clean [] after) ?_) ?_
  · intro after hnote
    simp only [Context.noteParameter] at hnote
    split at hnote
    · cases hnote
    split at hnote
    · cases hnote
    cases hnote
    exact hsound.idle before.resolvers _ before.advisories
  · intro _ after hadvances
    exact ends_pure ⟨hadvances, rfl, rfl⟩

theorem literal_builds (hsound : before.Sound schema clean) (token : Phrase.Literal) :
    BuildsExpression schema clean before (literal token) := by
  unfold literal
  split
  · exact ends_pure ⟨.refl hsound, rfl, rfl⟩
  · exact ends_throw _

/-- A function without parentheses has the type of its name in small letters. -/
theorem resultType?_lowered {name : String} (h : Catalogue.isNiladicFunction name = true) :
    Catalogue.resultType? (Text.lowered name) [] = Catalogue.resultType? name [] := by
  have hmem : Text.lowered name ∈ Catalogue.niladicFunctions := List.contains_iff_mem.mp h
  have hlowered : Text.lowered (Text.lowered name) = Text.lowered name := by
    simp only [Catalogue.niladicFunctions, List.mem_cons, List.not_mem_nil, or_false] at hmem
    rcases hmem with hname | hname | hname
    · rw [hname]
      decide
    · rw [hname]
      decide
    · rw [hname]
      decide
  simp only [Catalogue.resultType?]
  rw [hlowered]

theorem niladicName?_some {trail : Trail} {path : DottedName} {name : String}
    (h : niladicName? trail path = some name) : Catalogue.isNiladicFunction name = true := by
  simp only [niladicName?] at h
  split at h
  · rename_i hname
    cases h
    simp only [Bool.and_eq_true] at hname
    exact hname.1.2
  · cases h

theorem pathOrCall_builds (hsound : before.Sound schema clean) (dotted : DottedName) :
    BuildsExpression schema clean before (pathOrCall dotted) := by
  refine ends_get_bind ?_
  split
  · rename_i name hname
    have htype := resultType?_lowered (niladicName?_some hname)
    refine ends_pure ⟨.refl hsound, ⟨rfl, ?_⟩, trivial⟩
    simp only [Expression.retyped, List.map_nil, htype]
  · exact path_builds hsound dotted

theorem mapOf?_some {join : FromElement} {map : TypeDescriptor} (h : mapOf? join = some map) :
    ∃ through, join.join? = some through ∧ through.type.kind? = some .map ∧ through.type = map := by
  obtain ⟨hcollection, hkind⟩ := Option.filter_eq_some_iff.mp h
  obtain ⟨hmap, -⟩ := Option.filter_eq_some_iff.mp hcollection
  obtain ⟨through, hthrough, rfl⟩ := Option.map_eq_some_iff.mp hmap
  exact ⟨through, hthrough, eq_of_beq hkind, rfl⟩

theorem mapEntry_builds (hsound : before.Sound schema clean) (function : MapFunction)
    (argument : DottedName) :
    BuildsExpression schema clean before (mapEntry function argument) := by
  refine ends_bind (fromElementPath_finds hsound argument) ?_
  rintro join after ⟨hadvances, hreaches⟩
  split
  · rename_i map hmap
    obtain ⟨through, hthrough, hkind, rfl⟩ := mapOf?_some hmap
    exact ends_pure ⟨hadvances, ⟨through, hthrough, hkind, rfl⟩, hreaches⟩
  · refine ends_bind (ends_comply (Q := fun _ last => after = last) rfl) ?_
    rintro _ last rfl
    exact ends_pure (builds_element hadvances hreaches)
  · rename_i map hmap
    obtain ⟨through, hthrough, hkind, rfl⟩ := mapOf?_some hmap
    exact ends_pure ⟨hadvances, ⟨through, hthrough, hkind, rfl⟩, hreaches⟩
  · rename_i map hmap
    obtain ⟨through, hthrough, hkind, rfl⟩ := mapOf?_some hmap
    exact ends_pure ⟨hadvances, ⟨through, hthrough, hkind, rfl⟩, hreaches⟩
  · exact ends_throw _

theorem indexOfJoin_builds (hsound : before.Sound schema clean) (argument : Phrase.Expression) :
    BuildsExpression schema clean before (indexOfJoin argument) := by
  unfold indexOfJoin
  split
  · refine ends_bind (fromElementPath_finds hsound _) ?_
    rintro join after ⟨hadvances, hreaches⟩
    split
    · rename_i index hindex
      refine ends_pure ⟨hadvances, ?_, ⟨rfl, rfl⟩, hreaches⟩
      exact .inr ⟨join, rfl, rfl, rfl, hindex⟩
    · exact ends_throw _
  · exact ends_throw _

/-- The element that a variable stands for. -/
theorem identificationVariable_finds (hsound : before.Sound schema clean) (name : String) :
    Finds schema clean before (identificationVariable name) := by
  refine ends_get_bind ?_
  split
  · rename_i element helement
    exact ends_pure ⟨.refl hsound, element?_reaches hsound helement⟩
  · exact ends_throw _

/-! ## Calls -/

/-- Announcements and checks of names leave everything but the advisories. -/
theorem advise_advances (hsound : before.Sound schema clean) (code : Report.Code)
    (message : String) : before.Advances schema clean [] (before.advise code message) :=
  hsound.idle before.resolvers before.style? _

theorem announceCollectionFunction_ends (hsound : before.Sound schema clean)
    (function : CollectionFunction) :
    Ends schema before (announceCollectionFunction function) fun _ after =>
      before.Advances schema clean [] after := by
  unfold announceCollectionFunction
  split
  · refine ends_bind (ends_comply (Q := fun _ after => before = after) rfl) ?_
    rintro _ after rfl
    exact ends_modify (advise_advances hsound _ _)
  · exact ends_pure (.refl hsound)

theorem announceCall_ends (hsound : before.Sound schema clean) (name : String)
    (generic standard : Bool) :
    Ends schema before (announceCall name generic standard) fun _ after =>
      before.Advances schema clean [] after := by
  unfold announceCall
  split
  · refine ends_bind (ends_comply (Q := fun _ after => before = after) rfl) ?_
    rintro _ after rfl
    exact ends_modify (advise_advances hsound _ _)
  · exact ends_pure (.refl hsound)

/-- A function of a collection keeps its argument and the type that follows from it. -/
theorem collectionFunction_builds {function : CollectionFunction} {argument : Expression}
    (hadvances : before.Advances schema clean argument.boundElements between)
    (hargument : argument.Holds (between.rules schema clean) between.scope) :
    Ends schema between (collectionFunction function argument) fun value after =>
      before.Advances schema clean value.boundElements after
        ∧ value.Holds (after.rules schema clean) after.scope := by
  unfold collectionFunction
  split
  · rename_i collection
    split
    · rename_i hplural
      refine ends_bind (ends_ofExcept (Q := fun type? after => between = after
        ∧ collectionFunctionType function collection.type = .ok type?) fun _ h => ⟨rfl, h⟩) ?_
      rintro type? after ⟨rfl, htype⟩
      refine ends_pure ⟨hadvances, ?_, hargument⟩
      exact .inl ⟨collection, rfl, hplural, htype⟩
    · exact ends_throw _
  · exact ends_throw _

/-- A call has the type that follows from its arguments. -/
theorem call_typed (name : String) (distinct star standard : Bool) (arguments : List Expression) :
    (call name distinct star standard arguments).Typed := by
  refine ⟨rfl, ?_⟩
  cases standard with
  | true => rfl
  | false => rfl

theorem pluralOperand_ends {form : PluralForm} {operand : Expression}
    {Q : AttributeReference → Context → Prop}
    (h : ∀ collection, operand = .reference collection → collection.isPlural = true →
      Q collection between) :
    Ends schema between (pluralOperand form operand) Q := by
  unfold pluralOperand
  split
  · split
    · rename_i hplural
      exact ends_pure (h _ rfl hplural)
    · exact ends_throw _
  · exact ends_throw _

theorem instantiationTarget_ends {target : Phrase.Target} {items : List Phrase.SelectItem}
    {Q : Resolved.Target → Context → Prop} (h : ∀ made, Q made before) :
    Ends schema before (instantiationTarget target items) Q := by
  unfold instantiationTarget
  split
  · exact ends_pure (h _)
  · split
    · exact ends_throw _
    · exact ends_pure (h _)
  · refine ends_read_bind ?_
    split
    · exact ends_pure (h _)
    · exact ends_throw _

/-! ## Clauses -/

theorem ends_entity {name : DottedName} {Q : EntityReference → Context → Prop}
    (h : ∀ entity, schema.entity? name.text = some entity → Q entity before) :
    Ends schema before (entity name) Q := by
  refine ends_read_bind ?_
  cases hentity : schema.entity? name.text with
  | none => exact ends_throw _
  | some entity => exact ends_pure (h entity hentity)

theorem ends_checkVariable {alias? : Option String} {Q : Unit → Context → Prop} (h : Q () before) :
    Ends schema before (checkVariable alias?) Q := by
  unfold checkVariable
  split
  · exact ends_comply h
  · exact ends_pure h

/-- The root of a space is the root of its entity; it fills the space. -/
theorem root_ends (hsound : before.Sound schema clean) {id : SpaceId}
    (hid : id.level + 1 = before.levels.length) {written : Phrase.Root}
    (hplain : clean → Phrase.PlainVariable written.alias?) :
    Ends schema before (root id written) fun element after =>
      before.Extends schema clean [] after ∧ after.trail.results = before.trail.results
        ∧ after.Reaches element ∧ (∃ binding, element = .root binding)
        ∧ (∃ entity, schema.entity? written.entity.text = some entity
          ∧ element.type = entity.type)
        ∧ ∃ place, before.levels = Place.fill place .vacant ∧ place.id = id
          ∧ after.levels = place.fill (.rooted element []) := by
  refine ends_bind (ends_entity (Q := fun entity after =>
    schema.entity? written.entity.text = some entity ∧ before = after) fun _ h => ⟨h, rfl⟩) ?_
  rintro entity after ⟨hentity, rfl⟩
  have hroot : Ends schema before (do
      checkVariable written.alias?
      makeRoot id entity written.alias?) fun element after =>
      before.Extends schema clean [] after ∧ after.trail.results = before.trail.results
        ∧ after.Reaches element ∧ (∃ binding, element = .root binding)
        ∧ (∃ entity, schema.entity? written.entity.text = some entity
          ∧ element.type = entity.type)
        ∧ ∃ place, before.levels = Place.fill place .vacant ∧ place.id = id
          ∧ after.levels = place.fill (.rooted element []) := by
    refine ends_bind (ends_checkVariable (Q := fun _ after => before = after) rfl) ?_
    rintro _ after rfl
    refine ends_mono (makeRoot_ends hsound hid hplain entity) ?_
    rintro element after ⟨hextends, hresults, hreaches, hform, htype, hplace⟩
    exact ⟨hextends, hresults, hreaches, hform, ⟨entity, hentity, htype⟩, hplace⟩
  dsimp only
  split
  · refine ends_bind (ends_comply (Q := fun _ after => before = after) rfl) ?_
    rintro _ after rfl
    split
    · exact ends_throw_bind _ _
    · exact hroot
  · exact hroot

/-- A written join is put into a space of the current level. -/
theorem explicitJoin_finds (hsound : before.Sound schema clean) {id : SpaceId}
    (hid : id.level + 1 = before.levels.length) (path : DottedName) {alias? : Option String}
    (hplain : clean → Phrase.PlainVariable alias?) (narrowed? : Option EntityReference)
    (joinType : JoinType) (fetched : Bool) :
    Finds schema clean before (explicitJoin id path alias? narrowed? joinType fetched) := by
  unfold explicitJoin
  split
  · exact ends_throw _
  rename_i name hname
  dsimp only
  split
  · exact ends_throw_bind _ _
  refine ends_bind (fromElementParts_finds hsound _ _) ?_
  rintro source between ⟨hadvances, hreaches⟩
  refine ends_mono (attributeJoin_finds hadvances.sound hreaches ?_ (fun h => by cases h) hplain ?_)
    fun _ after ⟨hlater, hfound⟩ => ⟨hadvances.trans hlater, hfound⟩
  · intro declared hdeclared
    rw [TypeDescriptor.declared?_name hdeclared]
    exact hdeclared
  · intro place space hopened hplace
    have hlevel : place.id.level + 1 = between.levels.length := by
      rw [hplace, ← hadvances.grow.length_eq]
      exact hid
    have habove := place_above hopened hlevel
    have hscope : between.scope = place.scope space := by
      rw [Context.scope, hopened, Place.fill, habove]
      rfl
    refine ⟨?_, fun h => (by cases h), fun _ => habove⟩
    rw [← hscope]
    exact hreaches.2

theorem joinTarget_finds (hsound : before.Sound schema clean) {id : SpaceId}
    (hid : id.level + 1 = before.levels.length) (target : Phrase.JoinTarget)
    {alias? : Option String} (hplain : clean → Phrase.PlainVariable alias?) (joinType : JoinType)
    (fetched : Bool) :
    Finds schema clean before (joinTarget id target alias? joinType fetched) := by
  unfold joinTarget
  split
  · refine ends_get_bind ?_
    split
    · refine ends_bind (ends_entity (Q := fun _ after => before = after) fun _ _ => rfl) ?_
      rintro entity after rfl
      exact entityJoin_finds hsound hid hplain entity joinType
    · exact explicitJoin_finds hsound hid _ hplain _ _ _
  · refine ends_bind (ends_treatTarget (Q := fun _ after => before = after) fun _ _ => rfl) ?_
    rintro entity after rfl
    exact explicitJoin_finds hsound hid _ hplain _ _ _

theorem checkMember_ends (hsound : before.Sound schema clean) (path : DottedName) :
    Ends schema before (checkMember path) fun _ after => before.Advances schema clean [] after := by
  unfold checkMember
  split
  · exact ends_pure (.refl hsound)
  · split
    · refine ends_bind (fromElementParts_finds hsound _ _) ?_
      rintro source after ⟨hadvances, -⟩
      split
      · exact ends_throw _
      · exact ends_pure hadvances
    · exact ends_pure (.refl hsound)

theorem memberJoin_ends (hsound : before.Sound schema clean) {id : SpaceId}
    (hid : id.level + 1 = before.levels.length) (path : DottedName) {alias? : Option String}
    (hplain : clean → Phrase.PlainVariable alias?) :
    Ends schema before (memberJoin id path alias?) fun _ after =>
      before.Advances schema clean [] after := by
  refine ends_bind (ends_checkVariable (Q := fun _ after => before = after) rfl) ?_
  rintro _ after rfl
  refine ends_bind (checkMember_ends hsound path) ?_
  rintro _ between hadvances
  have hlevel : id.level + 1 = between.levels.length := by
    rw [← hadvances.grow.length_eq]
    exact hid
  refine ends_bind (explicitJoin_finds hadvances.sound hlevel path hplain none .inner false) ?_
  rintro _ after ⟨hlater, -⟩
  exact ends_pure (hadvances.trans hlater)

/-- The first root of the current level is in reach. -/
theorem firstRoot?_reaches (hsound : before.Sound schema clean) {root : FromElement}
    (h : before.levels.firstRoot? = some root) : before.Reaches root := by
  have hmem : root ∈ before.levels.elements := by
    cases hlevels : before.levels with
    | nil =>
      rw [hlevels] at h
      cases h
    | cons spaces below =>
      rw [hlevels] at h
      obtain ⟨space, hspace, hroot⟩ := Option.bind_eq_some_iff.mp h
      cases space with
      | vacant => cases hroot
      | rooted other joins =>
        cases hroot
        refine List.mem_append_left _ (List.mem_flatMap.mpr ⟨_, List.mem_of_head? hspace, ?_⟩)
        exact List.mem_cons_self
  exact hsound.fit.element (Resolved.builtRules_implies fun _ h => h) root hmem

/-- The new result variables stand for selections, which are counted from a position on. -/
def SelectsFrom (before after : Context) (selections : List Resolved.Selection) (start : Nat) :
    Prop :=
  ∀ result ∈ after.trail.results, result ∈ before.trail.results
    ∨ ∃ offset, selections[offset]? = some (.mk result.expression (some result.aliasName))
      ∧ result.position = start + offset

/-- A selection with a result variable is followed by others. -/
theorem SelectsFrom.cons {first second third : Context} {selection : Resolved.Selection}
    {selections : List Resolved.Selection} {position : Nat}
    (hresults : first.trail.results = before.trail.results)
    (hbind : first.trail.bindSelection position selection = .ok second.trail)
    (hrest : SelectsFrom second third selections (position + 1)) :
    SelectsFrom before third (selection :: selections) position := by
  intro result hresult
  rcases hrest result hresult with hold | ⟨offset, hoffset, hposition⟩
  · rcases Trail.bindSelection_results hbind result hold with hold | ⟨hselection, hposition⟩
    · rw [hresults] at hold
      exact .inl hold
    · refine .inr ⟨0, ?_, hposition⟩
      rw [List.getElem?_cons_zero, hselection]
  · refine .inr ⟨offset + 1, ?_, by omega⟩
    rw [List.getElem?_cons_succ]
    exact hoffset

/-- An implicit selection is that of the first root; it has no result variable. -/
theorem implicitSelection_ends (hsound : before.Sound schema clean) :
    Ends schema before implicitSelection fun selections after =>
      before.Extends schema clean (Resolved.selectionsBound selections) after
        ∧ after.levels.roots = before.levels.roots
        ∧ Resolved.selectionsHold (after.rules schema clean) after.scope selections
        ∧ SelectsFrom before after selections 0 := by
  refine ends_get_bind ?_
  split
  · exact ends_throw _
  rename_i root hroot
  have hreaches := firstRoot?_reaches hsound hroot
  refine ends_modify_bind ?_
  have hadvised := advise_advances hsound .implicitSelect
    s!"Use of HQL implicit select clause; select {root.aliasName} explicitly"
  refine ends_bind (ends_comply (Q := fun _ after => before.Advances schema clean [] after
    ∧ after.trail = before.trail) ⟨hadvised, rfl⟩) ?_
  rintro _ between ⟨hadvances, htrail⟩
  refine ends_bind (ends_bindSelection (Q := fun _ after => between.Extends schema clean [] after
    ∧ after.levels = between.levels ∧ after.trail.results = before.trail.results) ?_) ?_
  · intro trail hbind
    refine ⟨hadvances.sound.selects hbind, rfl, ?_⟩
    cases hbind
    exact congrArg Trail.results htrail
  rintro _ after ⟨hextends, hlevels, hresults⟩
  have hboth := hadvances.toExtends.trans hextends
  refine ends_pure ⟨hboth, ?_, ⟨⟨⟨rfl, rfl⟩, hboth.reaches hreaches⟩, trivial⟩,
    fun result hresult => ?_⟩
  · rw [hlevels, hadvances.roots]
  rw [hresults] at hresult
  exact .inl hresult

end EntityQuery.Interpretation.Step

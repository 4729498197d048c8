import EntityQuery.Interpretation.Statement
import EntityQuery.Proofs.MovedPaths
import EntityQuery.Proofs.RenamedQueries

/-!
# Statements with other variables

The meaning of a statement with other variables is its meaning with other variables. The fields of
an insertion are taken from a made-up variable; a field that begins with a changed name is no
attribute of the target, before and after.

* `Step.update_renamed`, `Step.delete_renamed`, `Step.insert_renamed`: bulk statements.
* `Step.statement_renamed`: statements.
-/

namespace EntityQuery.Interpretation.Step

open Resolved (AttributeReference PathSource)

variable {schema : Schema} {ρ : Renaming schema} {before : Context}

/-! ## Targets -/

theorem singleSpace_renamed (rename : String → String) (spaces : List Resolved.Space) :
    Agrees (fun space space' => space' = space.renamed rename) (singleSpace spaces)
      (singleSpace (Resolved.spacesRenamed rename spaces)) := by
  match spaces with
  | [] => exact .error rfl
  | [.mk root joins] =>
    cases joins with
    | nil => exact .ok rfl
    | cons join joins => exact .error rfl
  | _ :: _ :: _ => exact .error rfl

theorem bulkTarget_renamed {written : Phrase.Root}
    (hname : ∀ name ∈ written.alias?, ρ.Bound name) :
    Corresponds ρ ρ.Pairs (bulkTarget written) (bulkTarget (written.renamed ρ.rename)) := by
  refine corresponds_bind corresponds_openSpace ?_
  rintro id _ rfl
  refine corresponds_bind (root_renamed id hname) ?_
  rintro element _ ⟨rfl, helement⟩
  rw [FromElement.isPolymorphic_renamed]
  split
  · exact corresponds_throw_bind rfl
  · exact corresponds_pure ⟨rfl, helement⟩

/-- A root is found under its variable. -/
theorem makeRoot_bound (id : SpaceId) (entity : EntityReference) (alias? : Option String) :
    Ends schema before (makeRoot id entity alias?) fun element after =>
      after.trail.element? element.aliasName = some element := by
  refine ends_bind (fun _ _ _ => trivial) fun binding _ (_ : True) => ?_
  refine ends_bind (fun _ _ _ => trivial) fun _ _ (_ : True) => ?_
  have hregister : ∀ context : Context, Ends schema context (registerElement (.root binding))
      fun _ after => after.trail.element? binding.aliasName = some (.root binding) := by
    refine fun context => ends_registerElement fun trail hbind => ?_
    change trail.element? binding.aliasName = _
    rw [(Trail.bind_ok hbind).1]
    simp [Trail.element?, Trail.find?, Mark.element?, FromElement.aliasName, FromElement.binding]
  exact ends_bind (hregister _) fun _ _ hbound => ends_pure hbound

/-- The target of a bulk statement is found under its variable. -/
theorem bulkTarget_bound (written : Phrase.Root) :
    Ends schema before (bulkTarget written) fun element after =>
      after.trail.element? element.aliasName = some element := by
  refine ends_bind (fun _ _ _ => trivial) fun id _ (_ : True) => ?_
  have hmake : ∀ (context : Context) (entity : EntityReference),
      Ends schema context
        (do
          checkVariable written.alias?
          makeRoot id entity written.alias?)
        fun element after => after.trail.element? element.aliasName = some element :=
    fun context entity => ends_bind (fun _ _ _ => trivial) fun _ _ (_ : True) =>
      makeRoot_bound id entity written.alias?
  have hroot : ∀ context : Context, Ends schema context (root id written)
      fun element after => after.trail.element? element.aliasName = some element := by
    intro context
    refine ends_bind (fun _ _ _ => trivial) fun entity _ (_ : True) => ?_
    dsimp only
    split
    · refine ends_bind (fun _ _ _ => trivial) fun _ _ (_ : True) => ?_
      split
      · exact ends_throw_bind _ _
      · exact hmake _ entity
    · exact hmake _ entity
  refine ends_bind (hroot _) fun element after hbound => ?_
  split
  · exact ends_throw_bind _ _
  · exact ends_pure hbound

/-! ## Clauses -/

theorem mapM_renamed {α β γ : Type} {renamed : α → α} {items : List β} {other : β → γ}
    {visit : β → Step α} {visit' : γ → Step α}
    (h : ∀ item ∈ items, Renames ρ renamed (visit item) (visit' (other item))) :
    Renames ρ (List.map renamed) (items.mapM visit) ((items.map other).mapM visit') := by
  induction items with
  | nil =>
    rw [List.map_nil, List.mapM_nil, List.mapM_nil]
    exact corresponds_pure rfl
  | cons item items ih =>
    rw [List.map_cons, List.mapM_cons, List.mapM_cons]
    refine renames_bind (h item List.mem_cons_self) fun first => ?_
    exact renames_bind (ih fun later hlater => h later (List.mem_cons_of_mem _ hlater))
      fun _ => corresponds_pure rfl

/-- What a path refers to, as far as it is an attribute. -/
theorem stateFieldOf_renamed (value : Resolved.Expression) (field field' : DottedName) :
    Renames ρ (AttributeReference.renamed ρ.rename)
      (match value with
        | .reference reference => return reference
        | other => throw (.notStateField field other.type?))
      (match value.renamed ρ.rename with
        | .reference reference => return reference
        | other => throw (.notStateField field' other.type?)) := by
  cases value with
  | reference reference => exact corresponds_pure rfl
  | _ => exact corresponds_throw rfl

theorem stateField_renamed {field : DottedName}
    (hfirst : ∀ name ∈ field.parts.head?, ρ.admits name) :
    Renames ρ (AttributeReference.renamed ρ.rename) (stateField field)
      (stateField (field.renamed ρ.rename)) :=
  renames_bind (path_renamed hfirst) fun value => stateFieldOf_renamed value _ _

theorem assignment_renamed {written : Phrase.Assignment}
    (h : ∀ occurrence ∈ written.occurrences, ρ.Allows occurrence) :
    Renames ρ (Resolved.Assignment.renamed ρ.rename) (assignment written)
      (assignment (written.renamed ρ.rename)) := by
  rw [Phrase.Assignment.occurrences, List.forall_mem_append] at h
  refine corresponds_under .bulk ?_
  refine renames_bind (stateField_renamed (Phrase.pathOccurrences_allowed h.1)) fun target => ?_
  exact renames_bind (expression_renamed written.value h.2) fun _ => corresponds_pure rfl

theorem bulkRestriction_renamed {condition : Option Phrase.Predicate}
    (h : ∀ occurrence ∈ Phrase.restrictionOccurrences condition, ρ.Allows occurrence) :
    Renames ρ (Resolved.restrictionRenamed ρ.rename) (bulkRestriction condition)
      (bulkRestriction (Phrase.restrictionRenamed ρ.rename condition)) := by
  cases condition with
  | none => exact corresponds_pure rfl
  | some written =>
    exact renames_bind (corresponds_under .bulk (predicate_renamed written h))
      fun _ => corresponds_pure rfl

theorem update_renamed {target : Phrase.Root} {assignments : List Phrase.Assignment}
    {condition : Option Phrase.Predicate}
    (h : ∀ occurrence ∈ (Phrase.Statement.update target assignments condition).occurrences,
      ρ.Allows occurrence) :
    Renames ρ (Resolved.Statement.renamed ρ.rename) (update target assignments condition)
      (update (target.renamed ρ.rename) (assignments.map (Phrase.Assignment.renamed ρ.rename))
        (Phrase.restrictionRenamed ρ.rename condition)) := by
  simp only [Phrase.Statement.occurrences, List.forall_mem_append] at h
  obtain ⟨⟨htarget, hassignments⟩, hcondition⟩ := h
  refine corresponds_bind (corresponds_onLevel (R := fun clauses clauses' => clauses'
    = (clauses.1.map (Resolved.Assignment.renamed ρ.rename),
      Resolved.restrictionRenamed ρ.rename clauses.2)) ?_) ?_
  · refine corresponds_bind (bulkTarget_renamed (Phrase.aliasOccurrences_allowed htarget))
      fun _ _ _ => ?_
    refine corresponds_bind (mapM_renamed fun written hwritten => assignment_renamed
      fun occurrence hoccurrence => hassignments occurrence
        (List.mem_flatMap.mpr ⟨written, hwritten, hoccurrence⟩)) ?_
    rintro values _ rfl
    exact renames_bind (bulkRestriction_renamed hcondition) fun _ => corresponds_pure rfl
  · rintro ⟨⟨values, restriction⟩, spaces⟩ ⟨_, _⟩ ⟨rfl, rfl⟩
    exact renames_bind (corresponds_ofExcept (singleSpace_renamed ρ.rename spaces))
      fun _ => corresponds_pure rfl

theorem delete_renamed {target : Phrase.Root} {condition : Option Phrase.Predicate}
    (h : ∀ occurrence ∈ (Phrase.Statement.delete target condition).occurrences,
      ρ.Allows occurrence) :
    Renames ρ (Resolved.Statement.renamed ρ.rename) (delete target condition)
      (delete (target.renamed ρ.rename) (Phrase.restrictionRenamed ρ.rename condition)) := by
  simp only [Phrase.Statement.occurrences, List.forall_mem_append] at h
  refine corresponds_bind (corresponds_onLevel (R := fun restriction restriction' => restriction'
    = Resolved.restrictionRenamed ρ.rename restriction) ?_) ?_
  · exact corresponds_bind (bulkTarget_renamed (Phrase.aliasOccurrences_allowed h.1))
      fun _ _ _ => bulkRestriction_renamed h.2
  · rintro ⟨restriction, spaces⟩ ⟨_, _⟩ ⟨rfl, rfl⟩
    exact renames_bind (corresponds_ofExcept (singleSpace_renamed ρ.rename spaces))
      fun _ => corresponds_pure rfl

/-! ## Fields of insertions -/

theorem attributeReference_undeclared {name name' : String} {type : TypeDescriptor}
    (hname : type.declared? name = none) (hname' : type.declared? name' = none)
    {R : AttributeReference → AttributeReference → Prop} (source source' : PathSource)
    (path path' : DottedName) :
    Corresponds ρ R (attributeReference source type name path)
      (attributeReference source' type name' path') := by
  unfold attributeReference
  rw [hname, hname']
  exact corresponds_throw rfl

/-- In a bulk statement, attributes of an element are taken from it without joins. -/
theorem navigate_bulk (hbulk : before.resolver = .bulk) (element : FromElement)
    (names : List String) (path : DottedName) :
    Stays schema False before (navigate element names path) := by
  refine stays_bind (checkReach_stays element) fun _ => ?_
  split
  · exact stays_pure _
  · refine moves_get_bind ?_
    rw [if_pos hbulk]
    exact stays_bind (composites_stays _ _ _ _ _) fun _ =>
      stays_bind (attributeReference_stays _ _ _ _) fun _ => stays_pure _

theorem composites_undeclared {name name' : String} {type : TypeDescriptor}
    (hname : type.declared? name = none) (hname' : type.declared? name' = none)
    {R : PathSource × TypeDescriptor → PathSource × TypeDescriptor → Prop}
    (source source' : PathSource) (path path' : DottedName) (place place' : String)
    (names : List String) :
    Corresponds ρ R (composites path source type place (name :: names))
      (composites path' source' type place' (name' :: names)) :=
  corresponds_fails (attributeReference_undeclared hname hname' source source' path path')

/-- Where neither first name is an attribute of the element, both paths fail alike. -/
theorem navigate_undeclared (hfits : ρ.Fits before) (hbulk : before.resolver = .bulk)
    {element : FromElement} {name name' : String} (hname : element.type.declared? name = none)
    (hname' : element.type.declared? name' = none)
    {R : Resolved.Expression → Resolved.Expression → Prop} (names : List String)
    (path path' : DottedName) :
    CorrespondsAt ρ R before (navigate element (name :: names) path)
      (navigate (element.renamed ρ.rename) (name' :: names) path') := by
  refine correspondsAt_bind (checkReach_renamed element before hfits)
    fun _ _ between hrun _ _ => ?_
  have hstays : Stays schema False before (checkReach element) := checkReach_stays element
  obtain rfl := hstays.ends _ _ hrun
  intro advisories
  have hbulk' : (before.renamed ρ.rename advisories).resolver = .bulk := hbulk
  cases names with
  | nil =>
    dsimp only [List.getLast?_singleton]
    rw [run_get_bind, run_get_bind, if_pos hbulk, if_pos hbulk', FromElement.type_renamed]
    have hlast : ∀ source source' : PathSource, Corresponds ρ R
        (do return .reference (← attributeReference source element.type name path))
        (do return .reference (← attributeReference source' element.type name' path')) :=
      fun source source' => corresponds_fails
        (attributeReference_undeclared hname hname' source source' path path')
    exact hlast _ _ before hfits advisories
  | cons second names =>
    obtain ⟨last, hlast⟩ : ∃ last, (second :: names).getLast? = some last :=
      ⟨_, List.getLast?_eq_some_getLast (List.cons_ne_nil second names)⟩
    rw [List.getLast?_cons_cons, List.getLast?_cons_cons, hlast]
    dsimp only
    rw [run_get_bind, run_get_bind, if_pos hbulk, if_pos hbulk', FromElement.type_renamed]
    exact corresponds_fails (composites_undeclared hname hname' _ _ path path' _ _ _) before hfits
      advisories

/-- A path that begins with a bound variable is followed from what the variable stands for. -/
theorem path_bound {first : String} {element : FromElement}
    (hbound : before.trail.element? first = some element) (names : List String) :
    (path ⟨first :: names⟩).run' schema before
      = (navigate element names ⟨first :: names⟩).run' schema before := by
  unfold path
  dsimp only
  rw [run_get_bind]
  simp only [hbound]
  rfl

/-- A field of an insertion is an attribute of the target before and after, or it is none. -/
theorem insertField_renamed (hfits : ρ.Fits before) (hbulk : before.resolver = .bulk)
    {element : FromElement}
    (hbound : before.trail.element? element.aliasName = some element) (field : DottedName) :
    CorrespondsAt ρ (fun value value' => value' = value.renamed ρ.rename) before
      (path ⟨element.aliasName :: field.parts⟩)
      (path ⟨ρ.rename element.aliasName :: (field.renamed ρ.rename).parts⟩) := by
  have hknows : ρ.Knows element := Trail.element?_knows hfits.trail hbound
  intro advisories
  have hbound' : (before.renamed ρ.rename advisories).trail.element? (ρ.rename element.aliasName)
      = some (element.renamed ρ.rename) := by
    have hfound : (before.renamed ρ.rename advisories).trail.element?
          (ρ.rename element.aliasName)
        = (before.trail.element? element.aliasName).map (FromElement.renamed ρ.rename) :=
      Trail.element?_renamed hfits.trail hknows.bound.1
    rw [hfound, hbound]
    rfl
  rw [path_bound hbound, path_bound hbound']
  cases hparts : field.parts with
  | nil =>
    rw [DottedName.renamed_of_nil hparts, hparts]
    exact navigate_renamed hknows [] _ _ before hfits advisories
  | cons first names =>
    rw [DottedName.renamed_of_parts hparts]
    by_cases hname : ρ.rename first = first
    · rw [hname]
      exact navigate_renamed hknows (first :: names) _ _ before hfits advisories
    · obtain ⟨hold, hnew⟩ := Renaming.undeclared hname hknows.type
      exact navigate_undeclared hfits hbulk hold hnew names _ _ advisories

/-- Induction on the fields; following one of them leaves the state as it was. -/
theorem insertFields_renamed (hfits : ρ.Fits before) (hbulk : before.resolver = .bulk)
    {element : FromElement}
    (hbound : before.trail.element? element.aliasName = some element) (fields : List DottedName) :
    CorrespondsAt ρ (fun values values' =>
        values' = values.map (AttributeReference.renamed ρ.rename)) before
      (fields.mapM fun field => stateField ⟨element.aliasName :: field.parts⟩)
      ((fields.map (DottedName.renamed ρ.rename)).mapM fun field =>
        stateField ⟨ρ.rename element.aliasName :: field.parts⟩) := by
  induction fields with
  | nil =>
    rw [List.map_nil, List.mapM_nil, List.mapM_nil]
    intro advisories
    exact .ok advisories rfl hfits
  | cons field fields ih =>
    have hstays : Stays schema False before
        (stateField ⟨element.aliasName :: field.parts⟩) := by
      have hpath : Stays schema False before (path ⟨element.aliasName :: field.parts⟩) := by
        have hnavigate : Stays schema False before
            (navigate element field.parts ⟨element.aliasName :: field.parts⟩) :=
          navigate_bulk hbulk element field.parts _
        have hsame : (path ⟨element.aliasName :: field.parts⟩).run' schema before
            = (navigate element field.parts ⟨element.aliasName :: field.parts⟩).run' schema
              before := path_bound hbound field.parts
        exact ⟨hsame ▸ hnavigate.state, hsame ▸ hnavigate.lenient, nofun⟩
      refine stays_bind hpath fun value => ?_
      split
      · exact stays_pure _
      · exact stays_throw nofun
    have hfield : CorrespondsAt ρ (fun value value' => value' = value.renamed ρ.rename) before
        (stateField ⟨element.aliasName :: field.parts⟩)
        (stateField ⟨ρ.rename element.aliasName :: (field.renamed ρ.rename).parts⟩) := by
      refine correspondsAt_bind (insertField_renamed hfits hbulk hbound field) ?_
      rintro value _ between - hbetween rfl
      exact stateFieldOf_renamed value _ _ between hbetween
    rw [List.map_cons, List.mapM_cons, List.mapM_cons]
    refine correspondsAt_bind hfield ?_
    rintro value _ between hrun - rfl
    obtain rfl := hstays.ends _ _ hrun
    refine correspondsAt_bind ih ?_
    rintro values _ after - hafter rfl advisories
    exact .ok advisories rfl hafter

theorem insert_renamed {target : DottedName} {fields : List DottedName} {written : Phrase.Query}
    (h : ∀ occurrence ∈ written.occurrences, ρ.Allows occurrence) :
    Renames ρ (Resolved.Statement.renamed ρ.rename) (insert target fields written)
      (insert target (fields.map (DottedName.renamed ρ.rename)) (written.renamed ρ.rename)) := by
  refine corresponds_bind (corresponds_onLevel (R := fun values values' => values'
    = values.map (AttributeReference.renamed ρ.rename)) fun before hfits => ?_) ?_
  · have htarget : Corresponds ρ ρ.Pairs (bulkTarget ⟨target, none⟩)
        (bulkTarget ⟨target, none⟩) := bulkTarget_renamed fun _ h => by cases h
    refine correspondsAt_bind (htarget before hfits) ?_
    rintro element _ between hrun hbetween ⟨rfl, -⟩
    rw [FromElement.aliasName_renamed]
    have hfits : ρ.Fits (between.pushResolver .bulk) := ⟨hbetween.trail, hbetween.registered⟩
    have hbound : between.trail.element? element.aliasName = some element :=
      bulkTarget_bound ⟨target, none⟩ element between hrun
    exact correspondsAt_under .bulk (insertFields_renamed hfits rfl hbound fields)
  · rintro ⟨values, spaces⟩ ⟨_, _⟩ ⟨rfl, rfl⟩
    refine renames_bind (query_renamed written false h) fun select => ?_
    exact renames_bind (corresponds_ofExcept (singleSpace_renamed ρ.rename spaces))
      fun _ => corresponds_pure rfl

/-- The meaning of a statement with other variables is its meaning with other variables. -/
theorem statement_renamed (written : Phrase.Statement)
    (h : ∀ occurrence ∈ written.occurrences, ρ.Allows occurrence) :
    Renames ρ (Resolved.Statement.renamed ρ.rename) (statement written)
      (statement (written.renamed ρ.rename)) := by
  cases written with
  | select query =>
    exact renames_bind (query_renamed query false h) fun _ => corresponds_pure rfl
  | update target assignments condition => exact update_renamed h
  | delete target condition => exact delete_renamed h
  | insert target fields query =>
    rw [Phrase.Statement.occurrences, List.forall_mem_append] at h
    exact insert_renamed h.2

end EntityQuery.Interpretation.Step

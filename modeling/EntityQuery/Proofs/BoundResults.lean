import EntityQuery.Proofs.EnclosedPhrases
import EntityQuery.Proofs.MovedStatements
import EntityQuery.Proofs.TrailFrames

/-!
# Where result variables come from

An item of an order is looked up among the result variables of the current scope. These are bound by
the select clause of the query alone: its from clause, like every expression, binds elements only,
and what a nested query binds is gone when it is left.

* `Context.Binds`: what is bound across a step.
* `Step.spaces_bind`, `Step.selectExpression_binds`: from clauses and selected expressions bind
  elements only.
* `Step.selectClause_results`: the result variables of a query are those of its select clause.
-/

namespace EntityQuery.Interpretation

/-- Bindings of one kind are put into the current scope, and as many from clauses are open. -/
structure Context.Binds (kind : Mark → Prop) (before after : Context) : Prop where
  depth : SameDepth before after
  trail : ∃ marks, after.trail = marks ++ before.trail ∧ ∀ mark ∈ marks, kind mark

namespace Context.Binds

variable {kind : Mark → Prop} {before between after : Context}

theorem of_trail (hdepth : SameDepth before after) (htrail : after.trail = before.trail) :
    before.Binds kind after :=
  ⟨hdepth, [], htrail, fun _ hmark => by cases hmark⟩

theorem marked {mark : Mark} (hdepth : SameDepth before after)
    (htrail : after.trail = mark :: before.trail) (hmark : kind mark) : before.Binds kind after :=
  ⟨hdepth, [mark], htrail, fun other hother => by rwa [List.mem_singleton.mp hother]⟩

theorem trans (h : before.Binds kind between) (h' : between.Binds kind after) :
    before.Binds kind after := by
  obtain ⟨marks, htrail, hmarks⟩ := h.trail
  obtain ⟨later, htrail', hlater⟩ := h'.trail
  refine ⟨Eq.trans h'.depth h.depth, later ++ marks, ?_, fun mark hmark => ?_⟩
  · rw [htrail', htrail, List.append_assoc]
  · exact (List.mem_append.mp hmark).elim (hlater mark) (hmarks mark)

theorem mono {weaker : Mark → Prop} (himp : ∀ mark, kind mark → weaker mark)
    (h : before.Binds kind after) : before.Binds weaker after := by
  obtain ⟨marks, htrail, hmarks⟩ := h.trail
  exact ⟨h.depth, marks, htrail, fun mark hmark => himp mark (hmarks mark hmark)⟩

end Context.Binds

/-- Only elements are bound. -/
abbrev Context.BindsElements : Context → Context → Prop := Context.Binds (Mark.isElement · = true)

/-- Elements leave the result variables as they are. -/
theorem Context.BindsElements.results {before after : Context} (h : before.BindsElements after) :
    after.trail.results = before.trail.results := by
  obtain ⟨marks, htrail, hmarks⟩ := h.trail
  rw [htrail, Trail.results_append before.trail hmarks]

/-- What a nested query binds is gone when its level is left. -/
theorem bindingMotion (schema : Schema) (treat : DottedName → Prop) :
    Motion schema treat Context.BindsElements (Context.Binds (Mark.isOpened · = false)) where
  refl context := .of_trail rfl rfl
  trans _ _ _ := .trans
  within _ _ := .mono fun _ => Mark.isOpened_of_isElement
  transWithin _ _ _ := .trans
  depth _ _ h := h.depth
  idle _ _ _ _ _ _ _ := .of_trail rfl rfl
  register _ _ _ := .of_trail rfl rfl
  bind _ _ _ _ hbind := .marked rfl (Trail.bind_ok hbind).1 rfl
  joinImplicitly _ _ _ _ _ _ _ _ _ hopened _ := .of_trail (fill_length _ hopened) rfl
  resolve _ _ _ h := ⟨h.depth, h.trail⟩
  nest before after h := by
    obtain ⟨marks, htrail, hmarks⟩ := h.trail
    refine .of_trail ((depthMotion schema treat).nest before after h.depth) ?_
    change after.trail.leave = before.trail
    rw [htrail]
    exact Trail.leave_append before.trail hmarks
  openSpace context id levels hopen :=
    .of_trail ((depthMotion schema treat).openSpace context id levels hopen) rfl
  declare _ _ _ hbind := .marked rfl (Trail.bind_ok hbind).1 rfl
  fill _ _ _ _ hopened _ := .of_trail (fill_length _ hopened) rfl
  select _ _ := .marked rfl rfl rfl

namespace Step

variable {schema : Schema} {before : Context}

/-- Where the step ends, only elements were bound. -/
abbrev Elemental {α : Type} (schema : Schema) (before : Context) (step : Step α) : Prop :=
  Ends schema before step fun _ after => before.BindsElements after

theorem elemental_bind {α β : Type} {first : Step α} {second : α → Step β}
    (hfirst : Elemental schema before first)
    (hsecond : ∀ value between, Elemental schema between (second value)) :
    Elemental schema before (first >>= second) :=
  ends_bind hfirst fun value between h =>
    ends_mono (hsecond value between) fun _ _ hlater => h.trans hlater

theorem elemental_pure {α : Type} (value : α) : Elemental schema before (pure value) :=
  ends_pure (.of_trail rfl rfl)

theorem elemental_of_stays {α : Type} {step : Step α} (h : Stays schema False before step) :
    Elemental schema before step :=
  ends_mono h.ends fun _ _ hsame => .of_trail (by rw [← hsame]; rfl) (by rw [← hsame])

theorem elemental_of_moves {α : Type} {step : Step α}
    (h : Moves schema True Context.BindsElements before step) : Elemental schema before step :=
  h.ends

/-! ## Expressions -/

/-- The motion of bindings where every name is admitted. -/
abbrev freeBinding (schema : Schema) :
    Motion schema (fun _ => True) Context.BindsElements (Context.Binds (Mark.isOpened · = false)) :=
  bindingMotion schema fun _ => True

theorem restriction_binds (written : Option Phrase.Predicate) :
    Elemental schema before (restriction written) :=
  (restriction_moves (freeBinding schema) written
    (Phrase.restriction_meets treating_always written)).ends

theorem selectExpression_binds (written : Phrase.SelectExpression) :
    Elemental schema before (selectExpression written) :=
  (selectExpression_moves (freeBinding schema) written (written.meets treating_always)).ends

/-! ## From clauses -/

theorem openSpace_binds : Elemental schema before openSpace :=
  ends_openSpace fun id levels hopen =>
    .of_trail ((depthMotion schema fun _ => True).openSpace before id levels hopen) rfl

theorem updateSpace_binds (id : SpaceId) (change : OpenSpace → Except Fault OpenSpace) :
    Elemental schema before (updateSpace id change) := by
  refine ends_updateSpace fun levels hupdate => ?_
  obtain ⟨place, space, filled, hopened, rfl, -, -⟩ := Levels.update_ok hupdate
  exact .of_trail (fill_length filled hopened) rfl

theorem registerElement_binds (element : FromElement) :
    Elemental schema before (registerElement element) := by
  refine ends_registerElement fun trail hbind => ?_
  rw [(Trail.bind_ok hbind).1]
  exact .marked rfl rfl rfl

theorem newBinding_binds (alias? : Option String) (type : TypeDescriptor) :
    Elemental schema before (newBinding alias? type) :=
  elemental_of_moves (newBinding_moves (freeBinding schema) alias? type)

theorem attach_binds (id : SpaceId) (element : FromElement) :
    Elemental schema before (attach id element) :=
  elemental_bind (updateSpace_binds id _) fun _ _ => registerElement_binds element

theorem makeRoot_binds (id : SpaceId) (entity : EntityReference) (alias? : Option String) :
    Elemental schema before (makeRoot id entity alias?) :=
  elemental_bind (newBinding_binds alias? entity.type) fun _ _ =>
    elemental_bind (updateSpace_binds id _) fun _ _ =>
      elemental_bind (registerElement_binds _) fun _ _ => elemental_pure _

theorem root_binds (id : SpaceId) (written : Phrase.Root) :
    Elemental schema before (root id written) := by
  refine elemental_bind (elemental_of_stays (entity_stays _)) fun entity _ => ?_
  have hmake (context : Context) : Elemental schema context (do
      checkVariable written.alias?
      makeRoot id entity written.alias?) :=
    elemental_bind (elemental_of_stays (checkVariable_stays _))
      fun _ _ => makeRoot_binds id entity written.alias?
  dsimp only
  split
  · refine elemental_bind (elemental_of_stays (stays_comply _ _)) fun _ _ => ?_
    split
    · exact ends_throw_bind _ _
    · exact hmake _
  · exact hmake _

theorem crossJoin_binds (id : SpaceId) (entity : EntityReference) (alias? : Option String) :
    Elemental schema before (crossJoin id entity alias?) :=
  elemental_bind (elemental_of_stays (ensureMapped_stays _ _)) fun _ _ =>
    elemental_bind (newBinding_binds alias? entity.type) fun _ _ =>
      elemental_bind (attach_binds id _) fun _ _ => elemental_pure _

theorem entityJoin_binds (id : SpaceId) (alias? : Option String) (entity : EntityReference)
    (joinType : JoinType) : Elemental schema before (entityJoin id alias? entity joinType) :=
  elemental_bind (elemental_of_stays (ensureMapped_stays _ _)) fun _ _ =>
    elemental_bind (newBinding_binds alias? entity.type) fun _ _ =>
      elemental_bind (attach_binds id _) fun _ _ => elemental_pure _

theorem explicitJoin_binds (id : SpaceId) (path : DottedName) (alias? : Option String)
    {narrowed? : Option EntityReference}
    (hnarrowed : ∀ entity, narrowed? = some entity → schema.Names (fun _ => True) entity)
    (joinType : JoinType) (fetched : Bool) :
    Elemental schema before (explicitJoin id path alias? narrowed? joinType fetched) := by
  unfold explicitJoin
  split
  · exact ends_throw _
  dsimp only
  split
  · exact ends_throw_bind _ _
  have hsource (context : Context) (parts : List String) :
      Elemental schema context (fromElementParts parts path) :=
    elemental_of_moves (fromElementParts_moves (freeBinding schema) parts path)
  refine elemental_bind (hsource _ _) fun source between => ?_
  unfold attributeJoin
  refine elemental_bind (elemental_of_stays (joinableAttribute_stays _)) fun declared later => ?_
  rw [if_neg (by simp)]
  refine elemental_of_moves (newAttributeJoin_moves (freeBinding schema) (fun _ _ h => h)
    (freeBinding schema).trans hnarrowed (fun context _ _ _ _ => ?_) ?_)
  · exact updateSpace_moves (freeBinding schema).refl (addJoin_lenient _)
      fun _ _ _ hopened _ _ => .of_trail (fill_length _ hopened) rfl
  · exact fun _ _ _ _ _ hbind => .marked rfl (Trail.bind_ok hbind).1 rfl

theorem joinTarget_binds (id : SpaceId) (target : Phrase.JoinTarget) (alias? : Option String)
    (joinType : JoinType) (fetched : Bool) :
    Elemental schema before (joinTarget id target alias? joinType fetched) := by
  cases target with
  | plain path =>
    refine ends_get_bind ?_
    split
    · exact elemental_bind (elemental_of_stays (entity_stays _))
        fun entity _ => entityJoin_binds id alias? entity joinType
    · exact explicitJoin_binds id path alias? (fun _ h => by cases h) joinType fetched
  | treated path name =>
    refine ends_bind (Q := fun entity between => between = before
      ∧ schema.entity? name.text = some entity) (fun entity between hrun => ?_)
      fun entity between hnamed => ?_
    · have hnamed := ends_treatTarget (Q := fun entity _ =>
        schema.entity? name.text = some entity) (fun _ h => h) entity between hrun
      have hstays : Stays schema True before (treatTarget name) := treatTarget_stays name
      exact ⟨(hstays.ends entity between hrun).symm, hnamed⟩
    · obtain ⟨rfl, hname⟩ := hnamed
      refine explicitJoin_binds id path alias? (fun narrowed h => ?_) joinType fetched
      cases h
      exact ⟨name, trivial, hname⟩

theorem memberJoin_binds (id : SpaceId) (path : DottedName) (alias? : Option String) :
    Elemental schema before (memberJoin id path alias?) :=
  elemental_bind (elemental_of_stays (checkVariable_stays _)) fun _ _ =>
    elemental_bind (elemental_of_moves (checkMember_moves (freeBinding schema) path)) fun _ _ =>
      elemental_bind (explicitJoin_binds id path alias? (fun _ h => by cases h) .inner false)
        fun _ _ => elemental_pure _

theorem join_binds (id : SpaceId) (written : Phrase.Join) :
    Elemental schema before (join id written) := by
  cases written with
  | cross written =>
    exact elemental_bind (elemental_of_stays (entity_stays _)) fun entity _ =>
      elemental_bind (elemental_of_stays (checkVariable_stays _)) fun _ _ =>
        elemental_bind (crossJoin_binds id entity written.alias?) fun _ _ => elemental_pure _
  | collection path alias? => exact memberJoin_binds id path alias?
  | qualified type fetch target alias? condition =>
    rw [join]
    refine elemental_bind (elemental_of_stays (checkVariable_stays _)) fun _ _ => ?_
    refine elemental_bind (elemental_of_stays (stays_comply _ _)) fun _ _ => ?_
    refine elemental_bind (joinTarget_binds id target alias? type fetch) fun element context => ?_
    cases condition with
    | none => exact elemental_pure _
    | some written =>
      have hcondition :
          Elemental schema context (under (.joinRestriction id) (predicate written)) :=
        (under_moves (freeBinding schema) _ (predicate_moves (freeBinding schema) written
          (written.meets treating_always))).ends
      exact elemental_bind hcondition fun _ _ => updateSpace_binds id _

theorem joins_bind (id : SpaceId) : ∀ (written : List Phrase.Join) {before : Context},
    Elemental schema before (joins id written)
  | [], _ => elemental_pure _
  | first :: rest, _ => elemental_bind (join_binds id first) fun _ _ => joins_bind id rest

/-- A from clause binds no result variables. -/
theorem spaces_bind : ∀ (written : List Phrase.Space) {before : Context},
    Elemental schema before (spaces written)
  | [], _ => elemental_pure _
  | .mk written hanging :: rest, _ =>
    elemental_bind
      (elemental_bind openSpace_binds fun id _ =>
        elemental_bind (root_binds id written) fun _ _ => joins_bind id hanging)
      fun _ _ => spaces_bind rest

/-! ## Select clauses -/

theorem implicitSelection_results : Ends schema before implicitSelection fun _ after =>
    after.trail.results ⊆ before.trail.results := by
  refine ends_get_bind ?_
  split
  · exact ends_throw _
  refine ends_modify_bind (ends_bind (ends_comply (Q := fun _ after =>
    after.trail = before.trail) rfl) fun _ between htrail => ?_)
  refine ends_bind (ends_bindSelection fun trail hbind result hresult => ?_)
    fun _ _ h => ends_pure h
  rw [htrail] at hbind
  rcases Trail.bindSelection_results hbind result hresult with hold | ⟨hnone, -⟩
  · exact hold
  · simp at hnone

/-- A result variable that selections bind has the name of one of them. -/
theorem selections_results : ∀ (written : List Phrase.SelectItem) (position : Nat)
    {before : Context}, Ends schema before (selections written position) fun _ after =>
      ∀ result ∈ after.trail.results, result ∈ before.trail.results
        ∨ result.aliasName ∈ Phrase.resultNames (some (.mk false written))
  | [], _, _ => ends_pure fun _ hresult => .inl hresult
  | .mk written alias? :: rest, position, before => by
    refine ends_bind (elemental_of_stays (checkVariable_stays _)) fun _ checked hchecked => ?_
    refine ends_bind (selectExpression_binds written) fun value selected hselected => ?_
    have hbound : Ends schema selected (bindSelection position (.mk value alias?)) fun _ after =>
        ∀ result ∈ after.trail.results, result ∈ before.trail.results
          ∨ alias? = some result.aliasName := by
      refine ends_bindSelection fun trail hbind result hresult => ?_
      rcases Trail.bindSelection_results hbind result hresult with hold | ⟨hnew, -⟩
      · rw [hselected.results, hchecked.results] at hold
        exact .inl hold
      · cases hnew
        exact .inr rfl
    refine ends_bind hbound fun _ bound hbound => ?_
    refine ends_bind (selections_results rest (position + 1)) fun _ after hafter => ends_pure ?_
    intro result hresult
    simp only [Phrase.resultNames, List.mem_filterMap] at hafter ⊢
    rcases hafter result hresult with hold | ⟨item, hitem, hname⟩
    · rcases hbound result hold with hold | hname
      · exact .inl hold
      · exact .inr ⟨_, List.mem_cons_self, hname⟩
    · exact .inr ⟨item, List.mem_cons_of_mem _ hitem, hname⟩

theorem selectClause_results (written : Option Phrase.SelectClause) :
    Ends schema before (selectClause written) fun _ after =>
      ∀ result ∈ after.trail.results, result ∈ before.trail.results
        ∨ result.aliasName ∈ Phrase.resultNames written := by
  cases written with
  | none =>
    exact ends_bind implicitSelection_results fun _ _ h =>
      ends_pure fun _ hresult => .inl (h hresult)
  | some clause =>
    cases clause with
    | mk _ items => exact ends_bind (selections_results items 0) fun _ _ h => ends_pure h

end Step
end EntityQuery.Interpretation

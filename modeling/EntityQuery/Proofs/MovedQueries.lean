import EntityQuery.Interpretation.Statement
import EntityQuery.Proofs.BuiltCalls
import EntityQuery.Proofs.MovedPaths
import EntityQuery.Proofs.PhraseJudgement

/-!
# States that queries leave

A query fills a from clause of its own, which is dropped at its end. What it changes beyond that
are the changes of its paths. The proof follows the recursion of the steps on the phrase.

* `Step.expression_moves`, `Step.predicate_moves`, `Step.query_moves`: the trees of a query.
* `Step.query_leaves`: a query as a level that is opened and left.
-/

namespace EntityQuery.Interpretation.Step

variable {schema : Schema} {free : Prop} {before : Context} {treat : DottedName → Prop}
  {outer inner : Context → Context → Prop}

/-- What a phrase is narrowed to. -/
abbrev treating (treat : DottedName → Prop) : Phrase.Rules where
  treat := treat

/-- Nothing is required where every name is admitted. -/
theorem treating_always : (treating fun _ => True).Always :=
  ⟨fun _ => trivial, fun _ _ => trivial, fun _ => trivial, fun _ => trivial, fun _ => trivial,
    fun _ _ => trivial⟩

theorem close_lenient (spaces : List OpenSpace) (breach : Breach) :
    Levels.close spaces ≠ .error (.strict breach) := by
  induction spaces with
  | nil =>
    intro hfault
    cases hfault
  | cons space spaces ih =>
    intro hfault
    simp only [Levels.close, List.mapM_cons] at hfault
    cases space with
    | vacant => cases hfault
    | rooted root joins =>
      simp only [Levels.close] at ih
      cases hrest : spaces.mapM OpenSpace.close with
      | error fault =>
        rw [hrest] at hfault
        cases hfault
        exact ih hrest
      | ok rest =>
        rw [hrest] at hfault
        cases hfault

theorem ensureMapped_stays (entity : EntityReference) (form : EntityJoinForm) :
    Stays schema free before (ensureMapped entity form) := by
  unfold ensureMapped
  split
  · exact stays_throw nofun
  · exact stays_pure _

/-- An entity that may be joined is mapped. -/
theorem ensureMapped_ok {entity : EntityReference} {form : EntityJoinForm} :
    Ends schema before (ensureMapped entity form) fun _ _ => entity.type.isPolymorphic = false := by
  unfold ensureMapped
  cases entity with
  | mapped mapped => exact ends_pure rfl
  | polymorphic polymorphic => exact ends_throw _

theorem entity_stays (name : DottedName) : Stays schema free before (entity name) := by
  refine moves_read_bind ?_ fun _ => rfl
  split
  · exact stays_pure _
  · exact stays_throw nofun

theorem checkVariable_stays (alias? : Option String) :
    Stays schema False before (checkVariable alias?) := by
  unfold checkVariable
  split
  · exact stays_comply _ _
  · exact stays_pure _

theorem sortOrder_stays (ordering : Option String) :
    Stays schema free before (ofExcept (sortOrder ordering)) := by
  refine moves_ofExcept refl_eq fun breach hfault => ?_
  unfold sortOrder at hfault
  split at hfault
  · cases hfault
  · split at hfault <;> cases hfault

/-- The space that is opened belongs to the innermost from clause. -/
theorem openSpace_current :
    Ends schema before openSpace fun id after => id.level + 1 = after.levels.length := by
  refine ends_openSpace fun id levels hopen => ?_
  cases hlevels : before.levels with
  | nil =>
    rw [hlevels] at hopen
    cases hopen
  | cons spaces below =>
    rw [hlevels] at hopen
    cases hopen
    rfl

section

variable (motion : Motion schema treat outer inner)
include motion

/-! ## The innermost from clause -/

theorem inner_refl (context : Context) : inner context context :=
  motion.within _ _ (motion.refl context)

/-- A step of the innermost from clause is followed by others, which find the same levels. -/
theorem clause_bind {α β : Type} {first : Step α} {second : α → Step β}
    (hfirst : Moves schema free inner before first)
    (hsecond : ∀ value between, between.levels.length = before.levels.length →
      Moves schema free inner between (second value)) :
    Moves schema free inner before (first >>= second) := by
  refine moves_bind motion.transWithin hfirst fun value between hrun => hsecond value between ?_
  have hdepth := motion.depth _ _ hfirst.state
  rw [hrun] at hdepth
  exact hdepth

theorem updateSpace_fills {id : SpaceId} (hid : id.level + 1 = before.levels.length)
    {change : OpenSpace → Except Fault OpenSpace}
    (hlenient : ∀ space breach, change space ≠ .error (.strict breach)) :
    Moves schema free inner before (updateSpace id change) := by
  refine updateSpace_moves (inner_refl motion) hlenient
    fun place space filled hopened hplace _ => ?_
  exact motion.fill before place space filled hopened (place_above hopened (hplace ▸ hid))

theorem attach_moves {id : SpaceId} (hid : id.level + 1 = before.levels.length)
    {element : FromElement} (helement : element.Admitted schema treat) :
    Moves schema free inner before (attach id element) :=
  clause_bind motion (updateSpace_fills motion hid (addJoin_lenient element))
    fun _ _ _ => registerElement_moves motion motion.within motion.transWithin helement
      fun context trail => motion.declare context element trail

/-- A join over a mapped entity is put into a space of the innermost from clause. -/
theorem entityElement_moves {id : SpaceId} (hid : id.level + 1 = before.levels.length)
    {entity : EntityReference} (hmapped : entity.type.isPolymorphic = false)
    (alias? : Option String) {make : Binding → FromElement}
    (hmake : ∀ binding, binding.type.isPolymorphic = false →
      (make binding).Admitted schema treat) :
    Moves schema free inner before (do
      let element := make (← newBinding alias? entity.type)
      attach id element
      return element) := by
  refine moves_bind motion.transWithin ((newBinding_moves motion _ _).mono motion.within)
    fun binding drawn hrun => ?_
  obtain ⟨htype, hlevels⟩ := ends_newBinding (Q := fun binding after =>
    binding.type = entity.type ∧ after.levels = before.levels)
    (fun _ _ hdraws => ⟨hdraws.type, rfl⟩) binding drawn hrun
  rw [← htype] at hmapped
  rw [← hlevels] at hid
  exact clause_bind motion (attach_moves motion hid (hmake binding hmapped))
    fun _ _ _ => moves_pure (inner_refl motion) _

theorem crossJoin_moves {id : SpaceId} (hid : id.level + 1 = before.levels.length)
    (entity : EntityReference) (alias? : Option String) :
    Moves schema free inner before (crossJoin id entity alias?) :=
  stays_then (inner_refl motion) (ensureMapped_stays _ _) fun _ hrun =>
    entityElement_moves motion hid (ensureMapped_ok _ _ hrun) alias? fun _ hmapped => hmapped

theorem entityJoin_moves {id : SpaceId} (hid : id.level + 1 = before.levels.length)
    (alias? : Option String) (entity : EntityReference) (joinType : JoinType) :
    Moves schema free inner before (entityJoin id alias? entity joinType) :=
  stays_then (inner_refl motion) (ensureMapped_stays _ _) fun _ hrun =>
    entityElement_moves motion hid (ensureMapped_ok _ _ hrun) alias? fun _ hmapped => hmapped

theorem makeRoot_moves {id : SpaceId} (hid : id.level + 1 = before.levels.length)
    (entity : EntityReference) (alias? : Option String) :
    Moves schema free inner before (makeRoot id entity alias?) := by
  refine clause_bind motion ((newBinding_moves motion _ _).mono motion.within)
    fun binding drawn hlength => ?_
  rw [← hlength] at hid
  refine clause_bind motion (updateSpace_fills motion hid fun space breach hfault => ?_)
    fun _ filled _ => ?_
  · cases space <;> cases hfault
  · exact clause_bind motion
      (registerElement_moves motion motion.within motion.transWithin trivial
        fun context trail => motion.declare context _ trail)
      fun _ _ _ => moves_pure (inner_refl motion) _

theorem root_moves {id : SpaceId} (hid : id.level + 1 = before.levels.length)
    (written : Phrase.Root) : Moves schema False inner before (root id written) := by
  unfold root
  refine stays_then (inner_refl motion) (entity_stays _) fun entity _ => ?_
  have hmake : Moves schema False inner before (do
      checkVariable written.alias?
      makeRoot id entity written.alias?) :=
    stays_then (inner_refl motion) (checkVariable_stays _)
      fun _ _ => makeRoot_moves motion hid entity written.alias?
  dsimp only
  split
  · refine stays_then (inner_refl motion) (stays_comply _ _) fun _ _ => ?_
    split
    · exact moves_throw_bind (inner_refl motion) nofun
    · exact hmake
  · exact hmake

theorem explicitJoin_moves {id : SpaceId} (hid : id.level + 1 = before.levels.length)
    (path : DottedName) (alias? : Option String) {narrowed? : Option EntityReference}
    (hnarrowed : ∀ entity, narrowed? = some entity → schema.Names treat entity)
    (joinType : JoinType) (fetched : Bool) :
    Moves schema free inner before (explicitJoin id path alias? narrowed? joinType fetched) := by
  unfold explicitJoin
  split
  · exact moves_throw (inner_refl motion) nofun
  dsimp only
  split
  · exact moves_throw_bind (inner_refl motion) nofun
  refine clause_bind motion ((fromElementParts_moves motion _ _).mono motion.within)
    fun source between hlength => ?_
  rw [← hlength] at hid
  unfold attributeJoin
  refine stays_then (inner_refl motion) (joinableAttribute_stays _) fun declared _ => ?_
  rw [if_neg (by simp)]
  refine newAttributeJoin_moves motion motion.within motion.transWithin hnarrowed
    (fun later binding type _ hlevels => ?_)
    fun binding type context trail _ => motion.declare context _ trail
  rw [← hlevels] at hid
  exact updateSpace_fills motion hid (addJoin_lenient _)

theorem joinTarget_moves {id : SpaceId} (hid : id.level + 1 = before.levels.length)
    {target : Phrase.JoinTarget} (htarget : target.Meets (treating treat))
    (alias? : Option String) (joinType : JoinType) (fetched : Bool) :
    Moves schema free inner before (joinTarget id target alias? joinType fetched) := by
  cases target with
  | plain path =>
    refine moves_get_bind ?_
    split
    · exact stays_then (inner_refl motion) (entity_stays _)
        fun entity _ => entityJoin_moves motion hid alias? entity joinType
    · exact explicitJoin_moves motion hid path alias? (fun _ h => by cases h) joinType fetched
  | treated path name =>
    refine stays_then (inner_refl motion) (treatTarget_stays _) fun entity hrun => ?_
    have hentity := ends_treatTarget (Q := fun entity _ =>
      schema.entity? name.text = some entity) (fun _ h => h) entity before hrun
    refine explicitJoin_moves motion hid path alias? (fun narrowed h => ?_) joinType fetched
    cases h
    exact ⟨name, htarget, hentity⟩

theorem checkMember_moves (path : DottedName) :
    Moves schema free outer before (checkMember path) := by
  unfold checkMember
  split
  · exact moves_pure motion.refl _
  · split
    · refine moves_bind motion.trans (fromElementParts_moves motion _ _) fun source _ _ => ?_
      split
      · exact moves_throw motion.refl nofun
      · exact moves_pure motion.refl _
    · exact moves_pure motion.refl _

theorem memberJoin_moves {id : SpaceId} (hid : id.level + 1 = before.levels.length)
    (path : DottedName) (alias? : Option String) :
    Moves schema False inner before (memberJoin id path alias?) := by
  refine stays_then (inner_refl motion) (checkVariable_stays _) fun _ _ => ?_
  refine clause_bind motion ((checkMember_moves motion path).mono motion.within)
    fun _ between hlength => ?_
  rw [← hlength] at hid
  exact clause_bind motion
    (explicitJoin_moves motion hid path alias? (fun _ h => by cases h) .inner false)
    fun _ _ _ => moves_pure (inner_refl motion) _

theorem bindSelection_moves {selecting : Context → Context → Prop}
    (hselecting : Selecting outer selecting) (position : Nat) (selection : Resolved.Selection) :
    Moves schema free selecting before (bindSelection position selection) := by
  have hrefl : ∀ context, selecting context context := fun context =>
    hselecting.within _ _ (motion.refl context)
  refine moves_change hrefl (fun after hchange => ?_) fun breach hfault => ?_
  · unfold Trail.bindSelection at hchange
    split at hchange
    · cases hchange
      exact hrefl before
    · split at hchange
      · cases hchange
      · dsimp only at hchange
        split at hchange
        · cases hchange
          exact hselecting.select before _
        · split at hchange
          · cases hchange
            exact hselecting.select before _
          · cases hchange
  · unfold Trail.bindSelection at hfault
    split at hfault
    · cases hfault
    · split at hfault
      · cases hfault
      · dsimp only at hfault
        split at hfault
        · cases hfault
        · split at hfault <;> cases hfault

theorem implicitSelection_moves {selecting : Context → Context → Prop}
    (hselecting : Selecting outer selecting) :
    Moves schema False selecting before implicitSelection := by
  have hrefl : ∀ context, selecting context context := fun context =>
    hselecting.within _ _ (motion.refl context)
  refine moves_get_bind ?_
  split
  · exact moves_throw hrefl nofun
  refine moves_bind hselecting.trans
    (moves_modify (hselecting.within _ _ (motion.idle before _ _ _ _ _ _))) fun _ advised _ => ?_
  refine stays_then hrefl (stays_comply _ _) fun _ _ => ?_
  exact moves_bind hselecting.trans (bindSelection_moves motion hselecting _ _)
    fun _ _ _ => moves_pure hrefl _

theorem openSpace_moves : Moves schema free inner before openSpace := by
  refine moves_get_bind ?_
  cases hopen : before.levels.openSpace with
  | error fault =>
    refine moves_throw (inner_refl motion) fun breach hfault => ?_
    subst hfault
    cases hlevels : before.levels with
    | nil =>
      rw [hlevels] at hopen
      cases hopen
    | cons spaces below =>
      rw [hlevels] at hopen
      cases hopen
  | ok opened =>
    exact ⟨motion.openSpace before opened.1 opened.2 hopen, fun _ _ hfault => (by cases hfault),
      fun _ _ => rfl⟩

omit motion in
theorem onLevel_moves {left : Context → Context → Prop} (hleaving : Leaving inner left) {α : Type}
    {step : Step α} (h : Moves schema free inner before.openLevel step) :
    Moves schema free left before (onLevel step) := by
  refine ⟨?_, fun hstrict breach => ?_, fun hfree strict => ?_⟩
  · rw [run_onLevel]
    exact hleaving.nest _ _ h.state
  · have hlenient := h.lenient hstrict breach
    rw [run_onLevel]
    generalize step.run' schema before.openLevel = ran at hlenient
    obtain ⟨outcome, after⟩ := ran
    cases outcome with
    | error fault =>
      intro hfault
      cases hfault
      exact hlenient rfl
    | ok value =>
      dsimp only [Except.bind]
      cases hclose : Levels.close (after.levels.headD []) with
      | ok spaces =>
        intro hfault
        cases hfault
      | error fault =>
        intro hfault
        cases hfault
        exact close_lenient _ _ hclose
  · rw [run_onLevel, run_onLevel, h.same hfree strict]

/-- The clauses of a query fill a level of their own, which is left at the end. -/
theorem clauses_move {left : Context → Context → Prop} (hleaving : Leaving inner left)
    {select : Option Phrase.SelectClause} {written : List Phrase.Space}
    {condition : Option Phrase.Predicate} {ordering : Option (List Phrase.SortItem)}
    {limit offset : Option Phrase.Expression} {nested : Bool}
    (hspaces : ∀ {between : Context}, Moves schema False inner between (spaces written))
    (hselect : ∀ {between : Context}, Moves schema False inner between (selectClause select))
    (hcondition : ∀ {between : Context}, Moves schema False outer between (restriction condition))
    (hordering : ∀ {between : Context}, Moves schema False outer between (order ordering))
    (hlimit : ∀ {between : Context}, Moves schema False outer between (optional limit))
    (hoffset : ∀ {between : Context}, Moves schema False outer between (optional offset)) :
    Moves schema False left before
      (query (.mk select written condition ordering limit offset) nested) := by
  refine stays_then hleaving.refl (stays_comply _ _) fun _ _ => ?_
  refine stays_then hleaving.refl (stays_comply _ _) fun _ _ => ?_
  refine moves_bind hleaving.trans (onLevel_moves hleaving ?_)
    fun _ _ _ => moves_pure hleaving.refl _
  refine moves_bind motion.transWithin hspaces fun _ _ _ => ?_
  refine moves_bind motion.transWithin hselect fun _ _ _ => ?_
  refine moves_bind motion.transWithin (hcondition.mono motion.within) fun _ _ _ => ?_
  refine moves_bind motion.transWithin (hordering.mono motion.within) fun _ _ _ => ?_
  refine moves_bind motion.transWithin (hlimit.mono motion.within) fun _ _ _ => ?_
  refine moves_bind motion.transWithin (hoffset.mono motion.within) fun _ _ _ => ?_
  exact moves_pure (inner_refl motion) _

/-! ## Trees -/

theorem call_moves {name : String} {generic distinct star : Bool}
    {arguments : List Phrase.Expression}
    (hone : ∀ argument, arguments = [argument] → ∀ {between : Context},
      Moves schema False outer between (expression argument))
    (hall : ∀ {between : Context}, Moves schema False outer between (expressions arguments)) :
    Moves schema False outer before (expression (.call name generic distinct star arguments)) := by
  simp only [expression]
  split
  · refine moves_bind motion.trans (announceCollectionFunction_moves motion _) fun _ _ _ => ?_
    split
    · split
      · exact indexOfJoin_moves motion _
      · exact moves_bind motion.trans (hone _ rfl) fun _ _ _ =>
          .of_stays motion.refl (collectionFunction_stays _ _)
    · exact moves_throw motion.refl fun _ hstrict => by cases hstrict
  · exact moves_bind motion.trans (announceCall_moves motion _ _ _) fun _ _ _ =>
      moves_bind motion.trans hall fun _ _ _ => moves_pure motion.refl _

mutual

theorem expression_moves : ∀ (written : Phrase.Expression) {before : Context},
    written.Meets (treating treat) → Moves schema False outer before (expression written)
  | .literal token, _, _ => .of_stays motion.refl (literal_stays token)
  | .parameter written, _, _ => parameter_moves motion written
  | .path dotted, _, _ => pathOrCall_moves motion dotted
  | .indexed base index remainder, _, h =>
    moves_bind motion.trans (expression_moves index h)
      fun _ _ _ => indexed_moves motion base _ remainder
  | .treated base _ remainder, _, h => treated_moves motion base h remainder
  | .mapFunction function argument, _, _ => mapEntry_moves motion function argument
  | .arithmetic _ [left, right], _, ⟨hleft, hright, _⟩ =>
    moves_bind motion.trans (expression_moves left hleft) fun _ _ _ =>
      moves_bind motion.trans (expression_moves right hright) fun _ _ _ => moves_pure motion.refl _
  | .arithmetic _ [], _, _ => moves_throw motion.refl nofun
  | .arithmetic _ [_], _, _ => moves_throw motion.refl nofun
  | .arithmetic _ (_ :: _ :: _ :: _), _, _ => moves_throw motion.refl nofun
  | .concatenation [left, right], _, ⟨hleft, hright, _⟩ =>
    moves_bind motion.trans (expression_moves left hleft) fun _ _ _ =>
      moves_bind motion.trans (expression_moves right hright) fun _ _ _ => moves_pure motion.refl _
  | .concatenation [], _, _ => moves_throw motion.refl nofun
  | .concatenation [_], _, _ => moves_throw motion.refl nofun
  | .concatenation (_ :: _ :: _ :: _), _, _ => moves_throw motion.refl nofun
  | .unary _ operand, _, h =>
    moves_bind motion.trans (expression_moves operand h) fun _ _ _ => moves_pure motion.refl _
  | .grouped inner, _, h => expression_moves inner h
  | .call _ _ _ _ [], _, ⟨_, h⟩ =>
    call_moves motion (fun _ hone => by cases hone) (expressions_move [] h)
  | .call _ _ _ _ [argument], _, ⟨_, h⟩ =>
    call_moves motion
      (fun _ hone => by
        cases hone
        exact expression_moves argument h.1)
      (expressions_move [argument] h)
  | .call _ _ _ _ (first :: second :: rest), _, ⟨_, h⟩ =>
    call_moves motion (fun _ hone => by cases hone) (expressions_move (first :: second :: rest) h)
  | .simpleCase operand whens otherwise, _, ⟨hoperand, hwhens, hotherwise⟩ =>
    moves_bind motion.trans (expression_moves operand hoperand) fun _ _ _ =>
      moves_bind motion.trans (simpleWhens_move whens hwhens) fun _ _ _ =>
        moves_bind motion.trans (optional_moves otherwise hotherwise)
          fun _ _ _ => moves_pure motion.refl _
  | .searchedCase whens otherwise, _, ⟨hwhens, hotherwise⟩ =>
    moves_bind motion.trans (searchedWhens_move whens hwhens) fun _ _ _ =>
      moves_bind motion.trans (optional_moves otherwise hotherwise)
        fun _ _ _ => moves_pure motion.refl _
  | .subquery nested, _, h =>
    moves_bind motion.trans (query_moves nested true h) fun _ _ _ => moves_pure motion.refl _

theorem expressions_move : ∀ (written : List Phrase.Expression) {before : Context},
    Phrase.expressionsMeet (treating treat) written →
      Moves schema False outer before (expressions written)
  | [], _, _ => moves_pure motion.refl _
  | first :: rest, _, ⟨hfirst, hrest⟩ =>
    moves_bind motion.trans (expression_moves first hfirst) fun _ _ _ =>
      moves_bind motion.trans (expressions_move rest hrest) fun _ _ _ => moves_pure motion.refl _

theorem optional_moves : ∀ (written : Option Phrase.Expression) {before : Context},
    Phrase.optionalMeets (treating treat) written →
      Moves schema False outer before (optional written)
  | none, _, _ => moves_pure motion.refl _
  | some written, _, h =>
    moves_bind motion.trans (expression_moves written h) fun _ _ _ => moves_pure motion.refl _

theorem simpleWhens_move : ∀ (written : List Phrase.SimpleWhen) {before : Context},
    Phrase.simpleWhensMeet (treating treat) written →
      Moves schema False outer before (simpleWhens written)
  | [], _, _ => moves_pure motion.refl _
  | .mk value result :: rest, _, ⟨⟨hvalue, hresult⟩, hrest⟩ =>
    moves_bind motion.trans
      (moves_bind motion.trans (expression_moves value hvalue) fun _ _ _ =>
        moves_bind motion.trans (expression_moves result hresult)
          fun _ _ _ => moves_pure motion.refl _)
      fun _ _ _ =>
        moves_bind motion.trans (simpleWhens_move rest hrest) fun _ _ _ => moves_pure motion.refl _

theorem searchedWhens_move : ∀ (written : List Phrase.SearchedWhen) {before : Context},
    Phrase.searchedWhensMeet (treating treat) written →
      Moves schema False outer before (searchedWhens written)
  | [], _, _ => moves_pure motion.refl _
  | .mk condition result :: rest, _, ⟨⟨hcondition, hresult⟩, hrest⟩ =>
    moves_bind motion.trans
      (moves_bind motion.trans (predicate_moves condition hcondition) fun _ _ _ =>
        moves_bind motion.trans (expression_moves result hresult)
          fun _ _ _ => moves_pure motion.refl _)
      fun _ _ _ =>
        moves_bind motion.trans (searchedWhens_move rest hrest)
          fun _ _ _ => moves_pure motion.refl _

theorem predicate_moves : ∀ (written : Phrase.Predicate) {before : Context},
    written.Meets (treating treat) → Moves schema False outer before (predicate written)
  | .and left right, _, ⟨hleft, hright⟩ =>
    moves_bind motion.trans (predicate_moves left hleft) fun _ _ _ =>
      moves_bind motion.trans (predicate_moves right hright) fun _ _ _ => moves_pure motion.refl _
  | .or left right, _, ⟨hleft, hright⟩ =>
    moves_bind motion.trans (predicate_moves left hleft) fun _ _ _ =>
      moves_bind motion.trans (predicate_moves right hright) fun _ _ _ => moves_pure motion.refl _
  | .not inner, _, h =>
    moves_bind motion.trans (predicate_moves inner h) fun _ _ _ => moves_pure motion.refl _
  | .grouped inner, _, h =>
    moves_bind motion.trans (predicate_moves inner h) fun _ _ _ => moves_pure motion.refl _
  | .comparison _ left right, _, ⟨hleft, hright⟩ =>
    moves_bind motion.trans (expression_moves left hleft) fun _ _ _ =>
      moves_bind motion.trans (expression_moves right hright) fun _ _ _ => moves_pure motion.refl _
  | .between written lower upper _, _, ⟨hwritten, hlower, hupper⟩ =>
    moves_bind motion.trans (expression_moves written hwritten) fun _ _ _ =>
      moves_bind motion.trans (expression_moves lower hlower) fun _ _ _ =>
        moves_bind motion.trans (expression_moves upper hupper)
          fun _ _ _ => moves_pure motion.refl _
  | .like written pattern escape _, _, ⟨hwritten, hpattern, hescape⟩ =>
    moves_bind motion.trans (expression_moves written hwritten) fun _ _ _ =>
      moves_bind motion.trans (expression_moves pattern hpattern) fun _ _ _ =>
        moves_bind motion.trans (optional_moves escape hescape)
          fun _ _ _ => moves_pure motion.refl _
  | .inList written items _, _, ⟨hwritten, hitems⟩ =>
    moves_bind motion.trans (expression_moves written hwritten) fun _ _ _ =>
      moves_bind motion.trans (expressions_move items hitems) fun _ _ _ => moves_pure motion.refl _
  | .inSubquery written operand _, _, ⟨hwritten, hoperand⟩ => by
    cases operand with
    | subquery nested =>
      exact moves_bind motion.trans (expression_moves written hwritten) fun _ _ _ =>
        moves_bind motion.trans (query_moves nested true hoperand)
          fun _ _ _ => moves_pure motion.refl _
    | _ =>
      exact moves_bind motion.trans (expression_moves written hwritten)
        fun _ _ _ => moves_throw motion.refl nofun
  | .isNull written _, _, h =>
    moves_bind motion.trans (expression_moves written h) fun _ _ _ => moves_pure motion.refl _
  | .isEmpty written _, _, h =>
    moves_bind motion.trans (expression_moves written h) fun _ _ _ =>
      stays_then motion.refl (pluralOperand_stays _ _) fun _ _ => moves_pure motion.refl _
  | .memberOf element collection _, _, ⟨helement, hcollection⟩ =>
    moves_bind motion.trans (expression_moves element helement) fun _ _ _ =>
      stays_then motion.refl (pluralOperand_stays _ _) fun _ _ =>
        moves_bind motion.trans (expression_moves collection hcollection)
          fun _ _ _ => moves_pure motion.refl _
  | .existence operand _, _, h => by
    cases operand with
    | subquery nested =>
      exact moves_bind motion.trans (query_moves nested true h)
        fun _ _ _ => moves_pure motion.refl _
    | _ => exact moves_throw motion.refl nofun

theorem restriction_moves : ∀ (written : Option Phrase.Predicate) {before : Context},
    Phrase.restrictionMeets (treating treat) written →
      Moves schema False outer before (restriction written)
  | none, _, _ => moves_pure motion.refl _
  | some written, _, h =>
    moves_bind motion.trans (predicate_moves written h) fun _ _ _ => moves_pure motion.refl _

theorem selectExpression_moves : ∀ (written : Phrase.SelectExpression) {before : Context},
    written.Meets (treating treat) → Moves schema False outer before (selectExpression written)
  | .instantiation _ items, _, h =>
    stays_then motion.refl (instantiationTarget_stays _ _) fun _ _ =>
      moves_bind motion.trans (arguments_move items h) fun _ _ _ => moves_pure motion.refl _
  | .object name, _, _ =>
    stays_then motion.refl (identificationVariable_stays name)
      fun _ _ => moves_pure motion.refl _
  | .expression written, _, h => expression_moves written h

theorem arguments_move : ∀ (written : List Phrase.SelectItem) {before : Context},
    Phrase.argumentsMeet (treating treat) written →
      Moves schema False outer before (arguments written)
  | [], _, _ => moves_pure motion.refl _
  | .mk written _ :: rest, _, ⟨hfirst, hrest⟩ =>
    moves_bind motion.trans (selectExpression_moves written hfirst) fun _ _ _ =>
      moves_bind motion.trans (arguments_move rest hrest) fun _ _ _ => moves_pure motion.refl _

theorem selections_move : ∀ (written : List Phrase.SelectItem) (position : Nat)
    {before : Context} {selecting : Context → Context → Prop}, Selecting outer selecting →
      Phrase.selectionsMeet (treating treat) written →
      Moves schema False selecting before (selections written position)
  | [], _, _, _, hselecting, _ => moves_pure (fun _ => hselecting.within _ _ (motion.refl _)) _
  | .mk written alias? :: rest, position, _, _, hselecting, ⟨_, hfirst, hrest⟩ => by
    refine stays_then (fun _ => hselecting.within _ _ (motion.refl _)) (checkVariable_stays alias?)
      fun _ _ => ?_
    refine moves_bind hselecting.trans
      ((selectExpression_moves written hfirst).mono hselecting.within) fun value _ _ => ?_
    refine moves_bind hselecting.trans (bindSelection_moves motion hselecting position _)
      fun _ _ _ => ?_
    exact moves_bind hselecting.trans (selections_move rest (position + 1) hselecting hrest)
      fun _ _ _ => moves_pure (fun _ => hselecting.within _ _ (motion.refl _)) _

theorem selectClause_moves : ∀ (written : Option Phrase.SelectClause) {before : Context}
    {selecting : Context → Context → Prop}, Selecting outer selecting →
      Phrase.clauseMeets (treating treat) written →
      Moves schema False selecting before (selectClause written)
  | none, _, _, hselecting, _ =>
    moves_bind hselecting.trans (implicitSelection_moves motion hselecting)
      fun _ _ _ => moves_pure (fun _ => hselecting.within _ _ (motion.refl _)) _
  | some (.mk _ items), _, _, hselecting, h =>
    moves_bind hselecting.trans (selections_move items 0 hselecting h)
      fun _ _ _ => moves_pure (fun _ => hselecting.within _ _ (motion.refl _)) _

theorem join_moves : ∀ (written : Phrase.Join) {before : Context} {id : SpaceId},
    written.Meets (treating treat) → id.level + 1 = before.levels.length →
      Moves schema False inner before (join id written)
  | .cross written, _, _, _, hid =>
    stays_then (inner_refl motion) (entity_stays _) fun entity _ =>
      stays_then (inner_refl motion) (checkVariable_stays _) fun _ _ =>
        moves_bind motion.transWithin (crossJoin_moves motion hid entity written.alias?)
          fun _ _ _ => moves_pure (inner_refl motion) _
  | .collection path alias?, _, _, _, hid => memberJoin_moves motion hid path alias?
  | .qualified type fetch target alias? condition, before, id, ⟨_, htarget, hcondition⟩, hid => by
    rw [join]
    refine stays_then (inner_refl motion) (checkVariable_stays _) fun _ _ => ?_
    refine stays_then (inner_refl motion) (stays_comply _ _) fun _ _ => ?_
    refine clause_bind motion (joinTarget_moves motion hid htarget alias? type fetch)
      fun element first hfirst => ?_
    rw [← hfirst] at hid
    cases condition with
    | none => exact moves_pure (inner_refl motion) _
    | some written =>
      refine clause_bind motion ((under_moves motion _ (predicate_moves written hcondition)).mono
        motion.within) fun condition second hsecond => ?_
      rw [← hsecond] at hid
      exact updateSpace_fills motion hid fun space breach hfault => by cases hfault

theorem joins_move : ∀ (written : List Phrase.Join) {before : Context} {id : SpaceId},
    Phrase.joinsMeet (treating treat) written → id.level + 1 = before.levels.length →
      Moves schema False inner before (joins id written)
  | [], _, _, _, _ => moves_pure (inner_refl motion) _
  | first :: rest, _, _, ⟨hfirst, hrest⟩, hid =>
    clause_bind motion (join_moves first hfirst hid)
      fun _ _ hlength => joins_move rest hrest (hlength ▸ hid)

theorem space_moves : ∀ (written : Phrase.Space) {before : Context},
    written.Meets (treating treat) → Moves schema False inner before (space written)
  | .mk written hanging, before, ⟨_, hhanging⟩ => by
    refine moves_bind motion.transWithin (openSpace_moves motion) fun id opened hrun => ?_
    have hid := openSpace_current id opened hrun
    refine clause_bind motion (root_moves motion hid written) fun _ _ hlength => ?_
    exact joins_move hanging hhanging (hlength ▸ hid)

theorem spaces_move : ∀ (written : List Phrase.Space) {before : Context},
    Phrase.spacesMeet (treating treat) written → Moves schema False inner before (spaces written)
  | [], _, _ => moves_pure (inner_refl motion) _
  | first :: rest, _, ⟨hfirst, hrest⟩ =>
    moves_bind motion.transWithin (space_moves first hfirst) fun _ _ _ => spaces_move rest hrest

theorem sortItem_moves : ∀ (written : Phrase.SortItem) {before : Context},
    written.Meets (treating treat) → Moves schema False outer before (sortItem written)
  | .mk written collation ordering, before, h => by
    rw [sortItem]
    have hfinish : ∀ (context : Context) (value : Resolved.Expression),
        Moves schema False outer context (do
          let order ← ofExcept (sortOrder ordering)
          return Resolved.SortItem.mk value collation order) := fun context value =>
      stays_then motion.refl (sortOrder_stays _) fun _ _ => moves_pure motion.refl _
    refine moves_get_bind ?_
    dsimp only
    split
    · exact hfinish before _
    · exact moves_bind motion.trans (expression_moves written h) fun value after _ =>
        hfinish after value

theorem sortItems_move : ∀ (written : List Phrase.SortItem) {before : Context},
    Phrase.sortItemsMeet (treating treat) written →
      Moves schema False outer before (sortItems written)
  | [], _, _ => moves_pure motion.refl _
  | first :: rest, _, ⟨hfirst, hrest⟩ =>
    moves_bind motion.trans (sortItem_moves first hfirst) fun _ _ _ =>
      moves_bind motion.trans (sortItems_move rest hrest) fun _ _ _ => moves_pure motion.refl _

theorem order_moves : ∀ (written : Option (List Phrase.SortItem)) {before : Context},
    Phrase.orderMeets (treating treat) written → Moves schema False outer before (order written)
  | none, _, _ => moves_pure motion.refl _
  | some written, _, h =>
    moves_bind motion.trans (sortItems_move written h) fun _ _ _ => moves_pure motion.refl _

theorem query_moves : ∀ (written : Phrase.Query) (nested : Bool) {before : Context},
    written.Meets (treating treat) nested → Moves schema False outer before (query written nested)
  | .mk select written condition ordering limit offset, _, _,
      ⟨_, hspaces, hselect, hcondition, hordering, hlimit, hoffset⟩ =>
    clauses_move motion motion.leaving (spaces_move written hspaces)
      (selectClause_moves select motion.selecting hselect) (restriction_moves condition hcondition)
      (order_moves ordering hordering) (optional_moves limit hlimit) (optional_moves offset hoffset)

end

/-- A query respects every relation that holds across a level that was left. -/
theorem query_leaves {left : Context → Context → Prop} (hleaving : Leaving inner left)
    {written : Phrase.Query} {nested : Bool} (h : written.Meets (treating treat) nested) :
    Moves schema False left before (query written nested) := by
  obtain ⟨select, written, condition, ordering, limit, offset⟩ := written
  obtain ⟨-, hspaces, hselect, hcondition, hordering, hlimit, hoffset⟩ := h
  exact clauses_move motion hleaving (spaces_move motion written hspaces)
    (selectClause_moves motion select motion.selecting hselect)
    (restriction_moves motion condition hcondition) (order_moves motion ordering hordering)
    (optional_moves motion limit hlimit) (optional_moves motion offset hoffset)

end

end EntityQuery.Interpretation.Step

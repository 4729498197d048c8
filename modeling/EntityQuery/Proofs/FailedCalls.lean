import EntityQuery.Proofs.FailedPaths

/-!
# Why calls and clauses fail

A root is set in a space that was just opened, and joins are put into a space that has its root, so
that neither fails for the state of the space. A call or a literal fails for its shape only where it
has that shape.

* `Levels.Rooted`, `Levels.Last.of_roots`: from clauses whose spaces have roots.
* `Step.literal_faults`, `Step.mapEntry_faults`, `Step.collectionFunction_faults`: expressions.
* `Step.root_faults`, `Step.joinTarget_faults`, `Step.memberJoin_faults`: the from clause.
* `Step.bindSelection_faults`, `Step.sortOrder_faults`: the other clauses.
-/

namespace EntityQuery.Interpretation

open Resolved (Expression)

/-! ## From clauses with roots -/

namespace Levels

/-- All spaces of the innermost from clause have roots. -/
def Rooted (levels : Levels) : Prop :=
  ∃ (clause : List FromElement) (below : List (List (Option FromElement))),
    levels.roots = clause.map some :: below

theorem rooted_empty (below : Levels) : Rooted ([] :: below) := ⟨[], below.roots, rfl⟩

/-- A space with a root is opened in the innermost from clause. -/
theorem Rooted.opened {opened : List OpenSpace} {below : Levels} (h : Rooted (opened :: below))
    (root : FromElement) (joins : List Resolved.Join) :
    Rooted ((opened ++ [.rooted root joins]) :: below) := by
  obtain ⟨clause, rest, hroots⟩ := h
  obtain ⟨hclause, -⟩ := List.cons.inj hroots
  refine ⟨clause ++ [root], roots below, ?_⟩
  simp only [roots, List.map_cons, List.map_append, List.cons.injEq] at hclause ⊢
  exact ⟨by rw [hclause]; rfl, trivial⟩

/-- Spaces with roots can be finished. -/
theorem Rooted.close {levels : Levels} {clause : List FromElement}
    {below : List (List (Option FromElement))} (h : levels.roots = clause.map some :: below) :
    ∃ spaces, Levels.close (levels.headD []) = .ok spaces ∧ spaces.length = clause.length := by
  cases levels with
  | nil => cases h
  | cons spaces rest =>
    obtain ⟨hclause, -⟩ := List.cons.inj h
    clear h
    induction spaces generalizing clause with
    | nil =>
      cases clause with
      | nil => exact ⟨[], rfl, rfl⟩
      | cons root clause => cases hclause
    | cons space spaces ih =>
      cases clause with
      | nil => cases hclause
      | cons root clause =>
        obtain ⟨hspace, hspaces⟩ := List.cons.inj hclause
        obtain ⟨closed, hclosed, hlength⟩ := ih hspaces
        cases space with
        | vacant => cases hspace
        | rooted first joins =>
          have hrest : spaces.mapM OpenSpace.close = .ok closed := hclosed
          refine ⟨.mk first joins :: closed, ?_, congrArg Nat.succ hlength⟩
          simp only [List.headD_cons, Levels.close, List.mapM_cons, OpenSpace.close, hrest]
          rfl

/-- Where the roots are the same, the space that was opened last is the same. -/
theorem Last.of_roots {levels after : Levels} {id : SpaceId} (h : levels.Last id)
    (hroots : after.roots = levels.roots) : after.Last id := by
  obtain ⟨opened, root, joins, below, rfl, rfl⟩ := h
  cases after with
  | nil => cases hroots
  | cons spaces rest =>
    obtain ⟨hclause, hrest⟩ := List.cons.inj hroots
    simp only [List.map_append] at hclause
    obtain ⟨front, back, rfl, hfront, hback⟩ := List.map_eq_append_iff.mp hclause
    obtain ⟨last, rfl, hlast⟩ := List.map_eq_singleton_iff.mp hback
    have hbelow : below.length = rest.length := by
      have hlength := congrArg List.length hrest
      simp only [List.length_map] at hlength
      exact hlength.symm
    have hopened : opened.length = front.length := by
      have hlength := congrArg List.length hfront
      simp only [List.length_map] at hlength
      exact hlength.symm
    cases last with
    | vacant => cases hlast
    | rooted other others => exact ⟨front, other, others, rest, rfl, by rw [hbelow, hopened]⟩

/-- The space that was opened last has a root. -/
theorem Last.hasRoot {levels : Levels} {id : SpaceId} (h : levels.Last id) :
    levels.HasRoot id := by
  obtain ⟨opened, root, joins, below, rfl, rfl⟩ := h
  exact ⟨⟨[], opened, [], below⟩, root, joins, rfl, rfl⟩

end Levels

namespace Step

variable {schema : Schema} {before : Context} {parts : List Phrase.Part}

/-! ## Expressions without operands -/

theorem parameter_faults (written : Phrase.Parameter) :
    Faults parts schema before (parameter written) := by
  refine fails_then (fails_change fun fault hfault => ?_) fun _ => fails_pure
  unfold Context.noteParameter at hfault
  dsimp only at hfault
  split at hfault
  · cases hfault
    exact Fault.blamed rfl
  split at hfault
  · cases hfault
    exact Fault.blamed rfl
  · cases hfault

/-- A literal that holds no single character is a character literal. -/
theorem readValue_characterCount {kind : Phrase.LiteralKind} {text token : String}
    (h : Resolved.Literal.readValue kind token = .error (.characterCount text)) :
    kind = .character ∧ token = text ∧ text.toList.length ≠ 1 := by
  cases kind with
  | character =>
    simp only [Resolved.Literal.readValue] at h
    split at h
    · cases h
    · rename_i hcount
      cases h
      refine ⟨rfl, rfl, fun hone => ?_⟩
      obtain ⟨c, hc⟩ := List.length_eq_one_iff.mp hone
      exact hcount c hc
  | string => cases h
  | true => cases h
  | false => cases h
  | null => cases h
  | _ =>
    simp only [Resolved.Literal.readValue] at h
    exfalso
    revert h
    simp only [Except.mapError]
    split
    · intro h
      cases h
    · intro h
      cases h

theorem literal_faults {token : Phrase.Literal} (hmem : .expression (.literal token) ∈ parts) :
    Faults parts schema before (literal token) := by
  unfold literal
  split
  · exact fails_pure
  · rename_i fault hfault
    refine fails_throw ?_
    cases fault with
    | characterCount text =>
      have hread :
          Resolved.Literal.readValue token.kind token.text = .error (.characterCount text) := by
        unfold Resolved.Literal.ofPhrase at hfault
        cases hvalue : Resolved.Literal.readValue token.kind token.text with
        | ok value =>
          rw [hvalue] at hfault
          cases hfault
        | error other =>
          rw [hvalue] at hfault
          cases hfault
          rfl
      exact Fault.blamed_part rfl hmem (readValue_characterCount hread)
    | whole text problem => exact Fault.blamed rfl
    | binary text problem => exact Fault.blamed rfl
    | scaled text problem => exact Fault.blamed rfl

theorem pathOrCall_faults (hsound : before.Sound schema False) (dotted : DottedName) :
    Faults parts schema before (pathOrCall dotted) := by
  refine fails_get_bind ?_
  split
  · exact fails_pure
  · exact path_faults hsound dotted

theorem mapEntry_faults (hsound : before.Sound schema False) (function : MapFunction)
    (argument : DottedName) : Faults parts schema before (mapEntry function argument) := by
  refine fails_then (fromElementPath_faults hsound argument) fun join _ => ?_
  split
  · exact fails_pure
  · exact fails_then (fails_comply (Fault.blamed rfl)) fun _ => fails_pure
  · exact fails_pure
  · exact fails_pure
  · exact fails_throw (Fault.blamed rfl)

theorem indexOfJoin_faults (hsound : before.Sound schema False) (argument : Phrase.Expression) :
    Faults parts schema before (indexOfJoin argument) := by
  unfold indexOfJoin
  split
  · refine fails_then (fromElementPath_faults hsound _) fun join _ => ?_
    split
    · exact fails_pure
    · exact fails_throw (Fault.blamed rfl)
  · exact fails_throw (Fault.blamed rfl)

theorem identificationVariable_faults (name : String) :
    Faults parts schema before (identificationVariable name) := by
  refine fails_get_bind ?_
  split
  · exact fails_pure
  · exact fails_throw (Fault.blamed rfl)

/-! ## Calls and collections -/

theorem announceCollectionFunction_faults (function : CollectionFunction) :
    Faults parts schema before (announceCollectionFunction function) := by
  unfold announceCollectionFunction
  split
  · exact fails_then (fails_comply (Fault.blamed rfl)) fun _ => fails_modify
  · exact fails_pure

theorem announceCall_faults (name : String) (generic standard : Bool) :
    Faults parts schema before (announceCall name generic standard) := by
  unfold announceCall
  split
  · exact fails_then (fails_comply (Fault.blamed rfl)) fun _ => fails_modify
  · exact fails_pure

theorem collectionFunction_faults (function : CollectionFunction) (argument : Expression) :
    Faults parts schema before (collectionFunction function argument) := by
  unfold collectionFunction
  split
  · split
    · refine fails_then (fails_ofExcept fun fault hfault => ?_) fun _ => fails_pure
      unfold collectionFunctionType at hfault
      split at hfault
      · cases hfault
      · cases hfault
      · cases hfault
      · cases hfault
      · cases hfault
      · split at hfault
        · cases hfault
        · cases hfault
          exact Fault.blamed rfl
      · split at hfault
        · cases hfault
        · cases hfault
          exact Fault.blamed rfl
      · split at hfault
        · cases hfault
        · cases hfault
          exact Fault.blamed rfl
    · exact fails_throw (Fault.blamed rfl)
  · exact fails_throw (Fault.blamed rfl)

theorem pluralOperand_faults (form : PluralForm) (operand : Expression) :
    Faults parts schema before (pluralOperand form operand) := by
  unfold pluralOperand
  split
  · split
    · exact fails_pure
    · exact fails_throw (Fault.blamed rfl)
  · exact fails_throw (Fault.blamed rfl)

theorem instantiationTarget_faults (target : Phrase.Target) (items : List Phrase.SelectItem) :
    Faults parts schema before (instantiationTarget target items) := by
  unfold instantiationTarget
  split
  · exact fails_pure
  · split
    · exact fails_throw (Fault.blamed rfl)
    · exact fails_pure
  · refine fails_read_bind ?_
    split
    · exact fails_pure
    · exact fails_throw (Fault.blamed rfl)

/-! ## Clauses -/

theorem entity_faults (name : DottedName) : Faults parts schema before (entity name) := by
  refine fails_read_bind ?_
  split
  · exact fails_pure
  · exact fails_throw (Fault.blamed rfl)

theorem checkVariable_faults (alias? : Option String) :
    Faults parts schema before (checkVariable alias?) := by
  unfold checkVariable
  split
  · exact fails_comply (Fault.blamed rfl)
  · exact fails_pure

theorem ensureMapped_faults (entity : EntityReference) (form : EntityJoinForm) :
    Faults parts schema before (ensureMapped entity form) := by
  unfold ensureMapped
  split
  · exact fails_throw (Fault.blamed rfl)
  · exact fails_pure

/-- A root is set in a space that has none. -/
theorem makeRoot_faults {place : Place} (hvacant : before.levels = place.fill .vacant)
    (entity : EntityReference) (alias? : Option String) :
    Faults parts schema before (makeRoot place.id entity alias?) := by
  refine fails_bind (ends_newBinding (Q := fun _ after => before.levels = after.levels)
    fun _ _ _ => rfl) (newBinding_fails _ _) fun binding drawn hlevels => ?_
  refine fails_then (fails_updateSpace fun fault hupdate => ?_) fun _ =>
    fails_then (fails_registerElement fun _ => Fault.blamed rfl) fun _ => fails_pure
  rw [← hlevels, hvacant, Levels.update_fill] at hupdate
  cases hupdate

theorem root_faults {place : Place} (hvacant : before.levels = place.fill .vacant)
    (written : Phrase.Root) : Faults parts schema before (root place.id written) := by
  refine fails_stays (entity_stays _) (entity_faults _) fun entity => ?_
  have hmake : Faults parts schema before (do
      checkVariable written.alias?
      makeRoot place.id entity written.alias?) := by
    refine fails_stays (checkVariable_stays _) (checkVariable_faults _) fun _ => ?_
    exact makeRoot_faults hvacant entity written.alias?
  dsimp only
  split
  · refine fails_stays (stays_comply _ _) (fails_comply (Fault.blamed rfl)) fun _ => ?_
    split
    · exact fails_throw_bind (Fault.blamed rfl)
    · exact hmake
  · exact hmake

/-- A join over an entity is put into a space that has a root. -/
theorem entityElement_faults {id : SpaceId} (hlast : before.levels.Last id)
    (alias? : Option String) (type : TypeDescriptor) (make : Binding → FromElement) :
    Faults parts schema before (do
      let element := make (← newBinding alias? type)
      attach id element
      return element) := by
  refine fails_bind (ends_newBinding (Q := fun _ after => before.levels = after.levels)
    fun _ _ _ => rfl) (newBinding_fails _ _) fun binding drawn hlevels => ?_
  exact fails_then (attach_faults (hlevels ▸ hlast).hasRoot _) fun _ => fails_pure

theorem crossJoin_faults {id : SpaceId} (hlast : before.levels.Last id) (entity : EntityReference)
    (alias? : Option String) : Faults parts schema before (crossJoin id entity alias?) := by
  refine fails_stays (ensureMapped_stays _ _) (ensureMapped_faults _ _) fun _ => ?_
  exact entityElement_faults hlast alias? entity.type .crossJoin

theorem entityJoin_faults {id : SpaceId} (hlast : before.levels.Last id) (alias? : Option String)
    (entity : EntityReference) (joinType : JoinType) :
    Faults parts schema before (entityJoin id alias? entity joinType) := by
  refine fails_stays (ensureMapped_stays _ _) (ensureMapped_faults _ _) fun _ => ?_
  exact entityElement_faults hlast alias? entity.type fun binding => .entityJoin binding joinType

theorem explicitJoin_faults (hsound : before.Sound schema False) {id : SpaceId}
    (hlast : before.levels.Last id) (path : DottedName) (alias? : Option String)
    (narrowed? : Option EntityReference) (joinType : JoinType) (fetched : Bool) :
    Faults parts schema before (explicitJoin id path alias? narrowed? joinType fetched) := by
  unfold explicitJoin
  split
  · exact fails_throw (Fault.blamed rfl)
  dsimp only
  split
  · exact fails_throw_bind (Fault.blamed rfl)
  refine fails_bind (fromElementParts_finds hsound _ _) (fromElementParts_faults hsound _ _) ?_
  rintro source between ⟨hadvances, -⟩
  exact attributeJoin_faults (hlast.of_roots hadvances.roots).hasRoot fun h => by cases h

theorem joinTarget_faults (hsound : before.Sound schema False) {id : SpaceId}
    (hlast : before.levels.Last id) (target : Phrase.JoinTarget) (alias? : Option String)
    (joinType : JoinType) (fetched : Bool) :
    Faults parts schema before (joinTarget id target alias? joinType fetched) := by
  unfold joinTarget
  split
  · refine fails_get_bind ?_
    split
    · refine fails_stays (entity_stays _) (entity_faults _) fun entity => ?_
      exact entityJoin_faults hlast alias? entity joinType
    · exact explicitJoin_faults hsound hlast _ alias? none joinType fetched
  · refine fails_bind (ends_treatTarget (Q := fun _ after => before = after) fun _ _ => rfl)
      (treatTarget_faults _) ?_
    rintro entity _ rfl
    exact explicitJoin_faults hsound hlast _ alias? (some entity) joinType fetched

theorem memberJoin_faults (hsound : before.Sound schema False) {id : SpaceId}
    (hlast : before.levels.Last id) (path : DottedName) (alias? : Option String) :
    Faults parts schema before (memberJoin id path alias?) := by
  have hcheck : Faults parts schema before (checkMember path) := by
    unfold checkMember
    split
    · exact fails_pure
    · split
      · refine fails_then (fromElementParts_faults hsound _ _) fun source _ => ?_
        split
        · exact fails_throw (Fault.blamed rfl)
        · exact fails_pure
      · exact fails_pure
  refine fails_stays (checkVariable_stays _) (checkVariable_faults _) fun _ => ?_
  refine fails_bind (checkMember_ends hsound path) hcheck fun _ between hadvances => ?_
  exact fails_then (explicitJoin_faults hadvances.sound (hlast.of_roots hadvances.roots) path alias?
    none .inner false) fun _ => fails_pure

theorem bindSelection_faults (position : Nat) (selection : Resolved.Selection) :
    Faults parts schema before (bindSelection position selection) := by
  refine fails_change fun fault hfault => ?_
  unfold Trail.bindSelection at hfault
  split at hfault
  · cases hfault
  · split at hfault
    · cases hfault
      exact Fault.blamed rfl
    · dsimp only at hfault
      split at hfault
      · cases hfault
      · split at hfault
        · cases hfault
        · cases hfault
          exact Fault.blamed rfl

theorem implicitSelection_faults : Faults parts schema before implicitSelection := by
  refine fails_get_bind ?_
  split
  · exact fails_throw (Fault.blamed rfl)
  · exact fails_modify_bind (fails_then (fails_comply (Fault.blamed rfl)) fun _ =>
      fails_then (bindSelection_faults _ _) fun _ => fails_pure)

theorem sortOrder_faults (ordering : Option String) :
    Faults parts schema before (ofExcept (sortOrder ordering)) := by
  refine fails_ofExcept fun fault hfault => ?_
  unfold sortOrder at hfault
  split at hfault
  · cases hfault
  · split at hfault
    · cases hfault
    · cases hfault
      exact Fault.blamed rfl

end Step
end EntityQuery.Interpretation

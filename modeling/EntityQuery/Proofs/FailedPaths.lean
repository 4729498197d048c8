import EntityQuery.Proofs.Failing
import EntityQuery.Proofs.MovedQueries
import EntityQuery.Proofs.RestrictedPaths

/-!
# Why paths fail

A path that starts from an element in reach never meets a from clause that was lost: the space of
the element is found, it has a root, and the implicit join is asked for without a variable. The
faults of paths are about names and types only.

* `Levels.HasRoot`: a space that joins can be put into.
* `Step.Faults`: the faults of a step are blamed on parts of a phrase.
* `Step.implicitJoin_faults`, `Step.fromElementParts_faults`, `Step.treat_faults`: elements.
* `Step.path_faults`, `Step.indexed_faults`, `Step.treated_faults`: expressions.
-/

namespace EntityQuery.Interpretation

open Resolved (AttributeReference Expression IndexedReference PathSource)

/-- The space of a number is open and has a root. -/
def Levels.HasRoot (levels : Levels) (id : SpaceId) : Prop :=
  ∃ place root joins, levels = Place.fill place (.rooted root joins) ∧ place.id = id

/-- A space that holds an element has a root. -/
theorem Levels.hasRoot_of_spaceOf? {levels : Levels} {uid : Nat} {id : SpaceId}
    (h : levels.spaceOf? uid = some id) : levels.HasRoot id := by
  obtain ⟨place, space, hopened, hid, element, hmem, -⟩ := Levels.spaceOf?_some h
  cases space with
  | vacant => cases hmem
  | rooted root joins => exact ⟨place, root, joins, hopened, hid⟩

namespace Step

/-- The faults of a step are no internal ones, and those about shapes are blamed on the parts. -/
abbrev Faults {α : Type} (parts : List Phrase.Part) (schema : Schema) (before : Context)
    (step : Step α) : Prop :=
  Fails schema before step (Fault.BlamedOn parts)

/-- A check leaves the state as it was. -/
theorem fails_stays {α β : Type} {schema : Schema} {before : Context} {F : Fault → Prop}
    {first : Step α} {second : α → Step β} (hstays : Stays schema False before first)
    (hfirst : Fails schema before first F)
    (hsecond : ∀ value, Fails schema before (second value) F) :
    Fails schema before (first >>= second) F := by
  refine fails_bind hstays.ends hfirst ?_
  rintro value _ rfl
  exact hsecond value

variable {schema : Schema} {before : Context} {parts : List Phrase.Part}

/-! ## Elements -/

theorem newBinding_fails {F : Fault → Prop} (alias? : Option String) (type : TypeDescriptor) :
    Fails schema before (newBinding alias? type) F := by
  have hdraw : ∀ context : Context, Fails schema context drawUid F := by
    intro context fault after hrun
    cases hrun
  unfold newBinding
  cases alias? with
  | some aliasName => exact fails_then (hdraw before) fun _ => fails_pure
  | none =>
    refine fails_then (fun fault after hrun => ?_) fun _ => fails_then (hdraw _) fun _ => fails_pure
    cases hrun

/-- A join is put into a space that has a root. -/
theorem attach_faults {id : SpaceId} (h : before.levels.HasRoot id) (element : FromElement) :
    Faults parts schema before (attach id element) := by
  refine fails_then (fails_updateSpace fun fault hupdate => ?_)
    fun _ => fails_registerElement fun _ => Fault.blamed rfl
  obtain ⟨place, root, joins, hopened, rfl⟩ := h
  rw [hopened, Levels.update_fill] at hupdate
  cases hupdate

theorem attributeType_faults (declared : Attribute) :
    Faults parts schema before (attributeType declared) := by
  refine fails_read_bind ?_
  split
  · exact fails_pure
  · exact fails_throw (Fault.blamed rfl)

theorem checkDereference_faults (type : TypeDescriptor) (place : String) (last : Bool) :
    Faults parts schema before (ofExcept (checkDereference type place last)) := by
  refine fails_ofExcept fun fault hfault => ?_
  unfold checkDereference at hfault
  split at hfault
  · cases hfault
    exact Fault.blamed rfl
  · split at hfault
    · cases hfault
      exact Fault.blamed rfl
    · cases hfault

/-- An implicit join is asked for without fetching and without a variable. -/
theorem joinableAttribute_faults {request : JoinRequest}
    (h : request.implicit = true → request.fetched = false ∧ request.alias? = none) :
    Faults parts schema before (joinableAttribute request) := by
  unfold joinableAttribute
  dsimp only
  split
  · rename_i hfetched
    obtain ⟨hfetch, himplicit⟩ := Bool.and_eq_true_iff.mp hfetched
    rw [(h himplicit).1] at hfetch
    cases hfetch
  split
  · rename_i haliased
    obtain ⟨halias, himplicit⟩ := Bool.and_eq_true_iff.mp haliased
    rw [(h himplicit).2] at halias
    cases halias
  split
  · exact fails_throw (Fault.blamed rfl)
  · split
    · exact fails_throw_bind (Fault.blamed rfl)
    · exact fails_pure

theorem newAttributeJoin_faults {request : JoinRequest}
    (hspace : before.levels.HasRoot request.space) (declared : Attribute) :
    Faults parts schema before (newAttributeJoin request declared) := by
  rw [newAttributeJoin_eq]
  refine fails_stays (attributeType_stays declared) (attributeType_faults declared) fun type => ?_
  dsimp only
  split
  · exact fails_throw_bind (Fault.blamed rfl)
  refine fails_bind (ends_newBinding (Q := fun _ after => before.levels = after.levels)
    fun _ _ _ => rfl) (newBinding_fails _ _) fun binding drawn hlevels => ?_
  -- What is noted of the join leaves the from clauses.
  have hnoted : (noteJoin request declared binding.uid drawn).levels.HasRoot request.space :=
    hlevels ▸ hspace
  exact fails_modify_bind (fails_then (attach_faults hnoted _) fun _ => fails_pure)

theorem attributeJoin_faults {request : JoinRequest}
    (hspace : before.levels.HasRoot request.space)
    (himplicit : request.implicit = true → request.fetched = false ∧ request.alias? = none) :
    Faults parts schema before (attributeJoin request) := by
  refine fails_stays (joinableAttribute_stays request) (joinableAttribute_faults himplicit)
    fun declared => ?_
  split
  · refine fails_get_bind ?_
    split
    · exact fails_pure
    · exact newAttributeJoin_faults hspace declared
  · exact newAttributeJoin_faults hspace declared

/-- The space of an element in reach is found. -/
theorem joinBeside_faults {source : FromElement} (hsource : before.Reaches source)
    (declared? : Option Attribute) (place : String) :
    Faults parts schema before (joinBeside source declared? place) := by
  refine fails_get_bind ?_
  dsimp only
  split
  · exact fails_throw_bind (Fault.blamed rfl)
  split
  · rename_i hnone
    have hfound := Levels.spaceOf?_isSome hsource.2.unwrapped_mem
    have hspace : before.levels.spaceOf? source.unwrapped.uid = none := hnone
    rw [hspace] at hfound
    cases hfound
  · rename_i id hid
    exact attributeJoin_faults (Levels.hasRoot_of_spaceOf? hid) fun _ => ⟨rfl, rfl⟩

theorem implicitJoin_faults {source : FromElement}
    (hsource : before.Reaches source) (name place : String) (last : Bool) :
    Faults parts schema before (implicitJoin source name place last) := by
  unfold implicitJoin
  dsimp only
  split
  · refine fails_stays (attributeType_stays _) (attributeType_faults _) fun type => ?_
    refine fails_stays (checkDereference_stays _ _ _) (checkDereference_faults _ _ _) fun _ => ?_
    exact joinBeside_faults hsource _ _
  · exact joinBeside_faults hsource _ _

/-- A path goes on from what it found before. -/
theorem faults_next {α : Type} {first : Step FromElement} {next : FromElement → Step α}
    (hfinds : Finds schema False before first) (hfirst : Faults parts schema before first)
    (hnext : ∀ element between, between.Sound schema False → between.Reaches element →
      Faults parts schema between (next element)) :
    Faults parts schema before (first >>= next) :=
  fails_bind hfinds hfirst fun element between ⟨hadvances, hreaches⟩ =>
    hnext element between hadvances.sound hreaches

theorem joinAlong_faults (hsound : before.Sound schema False) {source : FromElement}
    (hsource : before.Reaches source) (place : String) (names : List String) :
    Faults parts schema before (joinAlong source place names) := by
  induction names generalizing before source place with
  | nil => exact fails_pure
  | cons name names ih =>
    exact faults_next (implicitJoin_finds hsound hsource name _ _)
      (implicitJoin_faults hsource name _ _)
      fun element between hbetween hreaches => ih hbetween hreaches _

theorem joinThrough_faults (hsound : before.Sound schema False) {source : FromElement}
    (hsource : before.Reaches source) (names : List String) :
    Faults parts schema before (joinThrough source names) := by
  induction names generalizing before source with
  | nil => exact fails_pure
  | cons name names ih =>
    exact faults_next (implicitJoin_finds hsound hsource name _ _)
      (implicitJoin_faults hsource name _ _)
      fun element between hbetween hreaches => ih hbetween hreaches

theorem checkReach_faults (element : FromElement) :
    Faults parts schema before (checkReach element) := by
  refine fails_get_bind ?_
  split
  · split
    · exact fails_throw (Fault.blamed rfl)
    · exact fails_pure
  · exact fails_pure

theorem fromElementParts_faults (hsound : before.Sound schema False) (names : List String)
    (path : DottedName) : Faults parts schema before (fromElementParts names path) := by
  unfold fromElementParts
  split
  · exact fails_throw (Fault.blamed rfl)
  · refine fails_get_bind ?_
    split
    · exact fails_throw (Fault.blamed rfl)
    · rename_i element helement
      refine fails_stays (checkReach_stays element) (checkReach_faults element) fun _ => ?_
      exact joinAlong_faults hsound (element?_reaches hsound helement) _ _

theorem fromElementPath_faults (hsound : before.Sound schema False) (path : DottedName) :
    Faults parts schema before (fromElementPath path) :=
  fromElementParts_faults hsound path.parts path

theorem treatTarget_faults (name : DottedName) :
    Faults parts schema before (treatTarget name) := by
  refine fails_read_bind ?_
  split
  · exact fails_pure
  · exact fails_throw (Fault.blamed rfl)

theorem treat_faults (element : FromElement) (target : DottedName) :
    Faults parts schema before (treat element target) := by
  unfold treat
  refine fails_then (treatTarget_faults target) fun entity between => ?_
  dsimp only
  have hnarrow : Faults parts schema between (do
      modify fun context => context.narrow element.uid entity
      let uid ← drawUid
      modify fun context => context.register
        (FromElement.treated
          ⟨uid, element.aliasName, element.binding.generated, entity.type⟩ element)
      return FromElement.treated
        ⟨uid, element.aliasName, element.binding.generated, entity.type⟩ element) := by
    refine fails_modify_bind (fails_then (fun fault after hrun => ?_) fun _ =>
      fails_modify_bind fails_pure)
    cases hrun
  split
  · split
    · exact fails_throw_bind (Fault.blamed rfl)
    · exact hnarrow
  · exact hnarrow

/-! ## Expressions -/

theorem attributeReference_faults (source : PathSource) (type : TypeDescriptor) (name : String)
    (path : DottedName) :
    Faults parts schema before (attributeReference source type name path) := by
  unfold attributeReference
  split
  · exact fails_throw (Fault.blamed rfl)
  · exact fails_then (attributeType_faults _) fun _ => fails_pure

theorem composites_faults (path : DottedName) (source : PathSource) (type : TypeDescriptor)
    (place : String) (names : List String) :
    Faults parts schema before (composites path source type place names) := by
  induction names generalizing before source type place with
  | nil => exact fails_pure
  | cons name names ih =>
    refine fails_then (attributeReference_faults source type name path) fun attained _ => ?_
    refine fails_then (checkDereference_faults _ _ _) fun _ _ => ?_
    split
    · exact ih _ _ _
    · exact fails_throw (Fault.blamed rfl)

theorem attributes_faults (path : DottedName) (source : PathSource) (type : TypeDescriptor)
    (names : List String) :
    Faults parts schema before (attributes path source type names) := by
  induction names generalizing before source type with
  | nil => exact fails_pure
  | cons name names ih =>
    refine fails_then (attributeReference_faults source type name path) fun attained _ => ?_
    exact fails_then (checkDereference_faults _ _ _) fun _ => ih _ _

theorem navigate_faults (hsound : before.Sound schema False) {element : FromElement}
    (helement : before.Reaches element) (names : List String) (path : DottedName) :
    Faults parts schema before (navigate element names path) := by
  unfold navigate
  refine fails_stays (checkReach_stays element) (checkReach_faults element) fun _ => ?_
  split
  · exact fails_pure
  · refine fails_get_bind ?_
    dsimp only
    split
    · exact fails_then (composites_faults _ _ _ _ _) fun _ =>
        fails_then (attributeReference_faults _ _ _ _) fun _ => fails_pure
    · exact fails_then (joinThrough_faults hsound helement _) fun _ =>
        fails_then (attributeReference_faults _ _ _ _) fun _ => fails_pure

theorem navigateIndexed_faults (indexed : IndexedReference) (path : DottedName) :
    Faults parts schema before (navigateIndexed indexed path) := by
  unfold navigateIndexed
  split
  · exact fails_pure
  · exact fails_then (attributes_faults _ _ _ _) fun _ =>
      fails_then (attributeReference_faults _ _ _ _) fun _ => fails_pure

theorem bareOwner_faults (name : String) (frames : List (List FromElement)) :
    Faults parts schema before (ofExcept (bareOwner name frames)) := by
  refine fails_ofExcept fun fault hfault => ?_
  induction frames with
  | nil => cases hfault
  | cons frame outer ih =>
    simp only [bareOwner] at hfault
    split at hfault
    · exact ih hfault
    · cases hfault
    · cases hfault
      exact Fault.blamed rfl

theorem path_faults (hsound : before.Sound schema False) (dotted : DottedName) :
    Faults parts schema before (path dotted) := by
  unfold path
  split
  · exact fails_throw (Fault.blamed rfl)
  refine fails_get_bind (fails_read_bind ?_)
  split
  · rename_i element helement
    exact navigate_faults hsound (element?_reaches hsound helement) _ _
  split
  · exact fails_pure
  split
  · exact fails_pure
  refine fails_bind (ends_ofExcept (Q := fun owner? after =>
    before = after ∧ bareOwner _ before.trail.frames = .ok owner?) fun _ h => ⟨rfl, h⟩)
    (bareOwner_faults _ _) ?_
  rintro owner? _ ⟨rfl, howner⟩
  split
  · rename_i element
    obtain ⟨frame, hframe, hmem⟩ := bareOwner_mem howner
    exact navigate_faults hsound (hsound.bound element (Trail.frames_subset frame hframe hmem)) _ _
  · exact fails_throw (Fault.blamed rfl)

theorem indexed_faults (hsound : before.Sound schema False) (base : DottedName)
    (index : Expression) (remainder : Option DottedName) :
    Faults parts schema before (indexed base index remainder) := by
  refine fails_then (path_faults hsound base) fun value _ => ?_
  split
  · split
    · dsimp only
      split
      · exact fails_pure
      · exact fails_under (navigateIndexed_faults _ _)
    · exact fails_throw (Fault.blamed rfl)
  · exact fails_throw (Fault.blamed rfl)

theorem treated_faults (hsound : before.Sound schema False) (base target : DottedName)
    (remainder : Option DottedName) :
    Faults parts schema before (treated base target remainder) := by
  refine faults_next (fromElementPath_finds hsound base) (fromElementPath_faults hsound base) ?_
  intro element between hbetween helement
  refine faults_next (treat_finds hbetween helement target) (treat_faults element target) ?_
  intro narrowed after hafter hnarrowed
  split
  · exact fails_pure
  · exact navigate_faults hafter hnarrowed _ _

end Step
end EntityQuery.Interpretation

import EntityQuery.Proofs.BuiltElements

/-!
# Paths that steps follow

Following a path mentions elements in reach only, and every attribute that is taken on the way is
declared by what it is taken from.

* `Step.Builds`: a step that builds a tree which meets the rules.
* `Step.implicitJoin_finds`, `Step.fromElementParts_finds`, `Step.treat_finds`: elements.
* `Step.navigate_builds`, `Step.path_builds`, `Step.indexed_builds`, `Step.treated_builds`:
  expressions.
-/

namespace EntityQuery.Interpretation.Step

open Resolved (AttributeReference Expression IndexedReference PathSource Rules)

variable {schema : Schema} {clean : Prop} {before : Context}

/-- A step that builds a tree: the tree meets the rules where the step ends, and what it binds is
accounted for. -/
def Builds {α : Type} (bound : α → List FromElement)
    (meets : Rules → List FromElement → α → Prop) (schema : Schema) (clean : Prop)
    (before : Context) (step : Step α) : Prop :=
  Ends schema before step fun value after => before.Advances schema clean (bound value) after
    ∧ meets (after.rules schema clean) after.scope value

/-- A step that builds an expression. -/
abbrev BuildsExpression : Schema → Prop → Context → Step Expression → Prop :=
  Builds Expression.boundElements Expression.Holds

/-! ## Elements -/

/-- The element that a variable stands for is in reach. -/
theorem element?_reaches (hsound : before.Sound schema clean) {name : String}
    {element : FromElement} (h : before.trail.element? name = some element) :
    before.Reaches element :=
  hsound.bound element (Trail.element?_some h)

/-- The space of an element in reach is the one that holds what the element narrows. -/
theorem spaceOf?_fits (hsound : before.Sound schema clean) {source : FromElement} {id : SpaceId}
    (hsource : before.Reaches source) (h : before.spaceOf? source = some id) {place : Place}
    {space : OpenSpace} (hopened : before.levels = place.fill space) (hid : place.id = id) :
    source.Within (place.scope space) ∧ source.unwrapped ∈ space.elements := by
  obtain ⟨other, found, hfound, hother, element, hmem, huid⟩ := Levels.spaceOf?_some h
  obtain ⟨rfl, rfl⟩ := Place.fill_inj (hopened.symm.trans hfound) (hid.trans hother.symm)
  have hfit := hsound.fit
  rw [hopened] at hfit
  have hspace : space ∈ place.clause space := by simp [Place.clause]
  obtain ⟨hregistered, hwithin⟩ := (Place.fit_clause hfit space hspace).element element hmem
  have hunwrapped := hsound.closed source hsource.1 source.unwrapped_mem_chain
  have hsame := hsound.unique element hregistered source.unwrapped hunwrapped huid
  subst hsame
  exact ⟨FromElement.within_of_unwrapped hwithin, hmem⟩

theorem ends_checkReach {element : FromElement} {Q : Unit → Context → Prop} (h : Q () before) :
    Ends schema before (checkReach element) Q := by
  refine ends_get_bind ?_
  split
  · split
    · exact ends_throw _
    · exact ends_pure h
  · exact ends_pure h

theorem joinBeside_finds (hsound : before.Sound schema clean) {source : FromElement}
    (hsource : before.Reaches source) (name place : String) :
    Finds schema clean before (joinBeside source (source.type.declared? name) place) := by
  refine ends_get_bind ?_
  dsimp only
  split
  · exact ends_throw_bind _ _
  split
  · exact ends_throw _
  rename_i id hid
  refine attributeJoin_finds hsound hsource ?_ (fun _ => rfl) ?_ ?_
  · intro declared hdeclared
    rw [TypeDescriptor.declared?_name hdeclared]
    exact hdeclared
  · intro _ aliasName halias
    cases halias
  · intro at_ space hopened hplace
    obtain ⟨hwithin, hmem⟩ := spaceOf?_fits hsound hsource hid hopened hplace
    exact ⟨hwithin, fun _ => hmem, fun h => by cases h⟩

theorem implicitJoin_finds (hsound : before.Sound schema clean) {source : FromElement}
    (hsource : before.Reaches source) (name place : String) (last : Bool) :
    Finds schema clean before (implicitJoin source name place last) := by
  unfold implicitJoin
  dsimp only
  split
  · refine ends_bind (ends_attributeType (Q := fun _ after => before = after) fun _ _ => rfl) ?_
    rintro type after rfl
    refine ends_bind (ends_ofExcept (Q := fun _ after => before = after) fun _ _ => rfl) ?_
    rintro _ after rfl
    exact joinBeside_finds hsound hsource name place
  · exact joinBeside_finds hsound hsource name place

/-- Elements that are reached by one join after the other. -/
theorem finds_next {first : Step FromElement} {next : FromElement → Step FromElement}
    (hfirst : Finds schema clean before first)
    (hnext : ∀ element between, between.Sound schema clean → between.Reaches element →
      Finds schema clean between (next element)) :
    Finds schema clean before (first >>= next) := by
  refine ends_bind hfirst fun element between ⟨hadvances, hreaches⟩ => ?_
  refine ends_mono (hnext element between hadvances.sound hreaches) ?_
  exact fun _ after ⟨hlater, hfound⟩ => ⟨hadvances.trans hlater, hfound⟩

theorem joinAlong_finds (hsound : before.Sound schema clean) {source : FromElement}
    (hsource : before.Reaches source) (place : String) (names : List String) :
    Finds schema clean before (joinAlong source place names) := by
  induction names generalizing before source place with
  | nil => exact ends_pure ⟨.refl hsound, hsource⟩
  | cons name names ih =>
    exact finds_next (implicitJoin_finds hsound hsource name _ _)
      fun element between hbetween hreaches => ih hbetween hreaches _

theorem joinThrough_finds (hsound : before.Sound schema clean) {source : FromElement}
    (hsource : before.Reaches source) (names : List String) :
    Finds schema clean before (joinThrough source names) := by
  induction names generalizing before source with
  | nil => exact ends_pure ⟨.refl hsound, hsource⟩
  | cons name names ih =>
    exact finds_next (implicitJoin_finds hsound hsource name _ _)
      fun element between hbetween hreaches => ih hbetween hreaches

theorem fromElementParts_finds (hsound : before.Sound schema clean) (parts : List String)
    (path : DottedName) : Finds schema clean before (fromElementParts parts path) := by
  unfold fromElementParts
  split
  · exact ends_throw _
  · refine ends_get_bind ?_
    split
    · exact ends_throw _
    · rename_i element helement
      refine ends_bind (ends_checkReach (Q := fun _ after => before = after) rfl) ?_
      rintro _ after rfl
      exact joinAlong_finds hsound (element?_reaches hsound helement) _ _

theorem fromElementPath_finds (hsound : before.Sound schema clean) (path : DottedName) :
    Finds schema clean before (fromElementPath path) :=
  fromElementParts_finds hsound path.parts path

theorem ends_treatTarget {name : DottedName} {Q : EntityReference → Context → Prop}
    (h : ∀ entity, schema.entity? name.text = some entity → Q entity before) :
    Ends schema before (treatTarget name) Q := by
  refine ends_read_bind ?_
  cases hentity : schema.entity? name.text with
  | none => exact ends_throw _
  | some entity => exact ends_pure (h entity hentity)

theorem treat_finds (hsound : before.Sound schema clean) {element : FromElement}
    (helement : before.Reaches element) (target : DottedName) :
    Finds schema clean before (treat element target) := by
  unfold treat
  refine ends_bind (ends_treatTarget (Q := fun _ after => before = after) fun _ _ => rfl) ?_
  rintro entity after rfl
  dsimp only
  have hnarrows := hsound.narrows helement entity
  have htreat : Finds schema clean before (do
      modify fun context => context.narrow element.uid entity
      let uid ← drawUid
      modify fun context => context.register
        (.treated ⟨uid, element.aliasName, element.binding.generated, entity.type⟩ element)
      return .treated ⟨uid, element.aliasName, element.binding.generated, entity.type⟩
        element) := by
    refine ends_modify_bind ?_
    refine ends_bind (ends_drawUid (Q := fun uid after => uid = before.nextUid
      ∧ after = { before.narrow element.uid entity with nextUid := before.nextUid + 1 })
      ⟨rfl, rfl⟩) ?_
    rintro uid after ⟨rfl, rfl⟩
    exact ends_modify_bind (ends_pure hnarrows)
  split
  · split
    · exact ends_throw_bind _ _
    · exact htreat
  · exact htreat

/-! ## Attributes -/

theorem attributeReference_ends {source : PathSource}
    {type : TypeDescriptor} (htype : source.type = type) (hplace : source.InPlace)
    (hsource : source.Holds (before.rules schema clean) before.scope) (name : String)
    (path : DottedName) :
    Ends schema before (attributeReference source type name path) fun attained after =>
      before = after ∧ attained.Holds (before.rules schema clean) before.scope
        ∧ attained.source = source := by
  unfold attributeReference
  split
  · exact ends_throw _
  · rename_i declared hdeclared
    refine ends_bind (ends_attributeType (Q := fun type after =>
      schema.resolve? declared.type = some type ∧ before = after) fun _ h => ⟨h, rfl⟩) ?_
    rintro found after ⟨hfound, rfl⟩
    refine ends_pure ⟨rfl, ⟨⟨⟨?_, hfound⟩, hplace⟩, hsource⟩, rfl⟩
    rw [← htype] at hdeclared
    change source.type.declared? declared.name = some declared
    rw [TypeDescriptor.declared?_name hdeclared]
    exact hdeclared

theorem boundElements_source {attained : AttributeReference} {source : PathSource}
    (h : attained.source = source) : attained.boundElements = source.boundElements := by
  cases attained
  rw [← h]
  rfl

/-- What is reached by attributes that are taken one from the other. -/
structure Reached (schema : Schema) (clean : Prop) (before : Context) (start : PathSource)
    (reached : PathSource × TypeDescriptor) (after : Context) : Prop where
  same : before = after
  type : reached.1.type = reached.2
  place : reached.1.InPlace
  holds : reached.1.Holds (before.rules schema clean) before.scope
  bound : reached.1.boundElements = start.boundElements

/-- The next attribute starts from what was reached. -/
theorem reached_next {start : PathSource} {attained : AttributeReference}
    (hstart : attained.source = start) {reached : PathSource × TypeDescriptor} {after : Context}
    (h : Reached schema clean before (.reference attained) reached after) :
    Reached schema clean before start reached after :=
  { h with bound := h.bound.trans (boundElements_source hstart) }

theorem composites_ends (path : DottedName) {source : PathSource} {type : TypeDescriptor}
    (htype : source.type = type) (hplace : source.InPlace)
    (hsource : source.Holds (before.rules schema clean) before.scope) (place : String)
    (names : List String) :
    Ends schema before (composites path source type place names)
      (Reached schema clean before source) := by
  induction names generalizing source type place with
  | nil => exact ends_pure ⟨rfl, htype, hplace, hsource, rfl⟩
  | cons name names ih =>
    refine ends_bind (attributeReference_ends htype hplace hsource name path) ?_
    rintro attained after ⟨rfl, hattained, hstart⟩
    refine ends_bind (ends_ofExcept (Q := fun _ after => before = after) fun _ _ => rfl) ?_
    rintro _ after rfl
    split
    · rename_i composite hcomposite
      have hnext : (PathSource.reference attained).InPlace := by
        refine AttributeReference.InPlace.next ?_ (.inl (by rw [hcomposite]; rfl))
        rw [AttributeReference.InPlace, hstart]
        exact hplace
      exact ends_mono (ih rfl hnext hattained _) fun _ _ => reached_next hstart
    · exact ends_throw _

/-- Attributes are taken from an indexed element whatever their types are. -/
theorem attributes_ends (path : DottedName) {source : PathSource} {type : TypeDescriptor}
    (htype : source.type = type) (hplace : source.InPlace) (hindices : source.indices ≠ [])
    (hsource : source.Holds (before.rules schema clean) before.scope) (names : List String) :
    Ends schema before (attributes path source type names)
      (Reached schema clean before source) := by
  induction names generalizing source type with
  | nil => exact ends_pure ⟨rfl, htype, hplace, hsource, rfl⟩
  | cons name names ih =>
    refine ends_bind (attributeReference_ends htype hplace hsource name path) ?_
    rintro attained after ⟨rfl, hattained, hstart⟩
    refine ends_bind (ends_ofExcept (Q := fun _ after => before = after) fun _ _ => rfl) ?_
    rintro _ after rfl
    have hbehind : attained.indices ≠ [] := by
      cases attained
      rw [← hstart] at hindices
      exact hindices
    have hnext : (PathSource.reference attained).InPlace := by
      refine AttributeReference.InPlace.next ?_ (.inr hbehind)
      rw [AttributeReference.InPlace, hstart]
      exact hplace
    exact ends_mono (ih rfl hnext hbehind hattained) fun _ _ => reached_next hstart

/-! ## Expressions -/

theorem builds_element {element : FromElement} {after : Context}
    (hadvances : before.Advances schema clean [] after) (hreaches : after.Reaches element) :
    before.Advances schema clean (Expression.element element).boundElements after
      ∧ (Expression.element element).Holds (after.rules schema clean) after.scope :=
  ⟨hadvances, ⟨rfl, rfl⟩, hreaches⟩

theorem builds_reference {attained : AttributeReference} {after : Context}
    (hadvances : before.Advances schema clean attained.boundElements after)
    (hattained : attained.Holds (after.rules schema clean) after.scope) :
    before.Advances schema clean (Expression.reference attained).boundElements after
      ∧ (Expression.reference attained).Holds (after.rules schema clean) after.scope :=
  ⟨hadvances, ⟨rfl, rfl⟩, hattained⟩

theorem navigate_builds (hsound : before.Sound schema clean) {element : FromElement}
    (helement : before.Reaches element) (names : List String) (path : DottedName) :
    BuildsExpression schema clean before (navigate element names path) := by
  unfold navigate
  refine ends_bind (ends_checkReach (Q := fun _ after => before = after) rfl) ?_
  rintro _ after rfl
  split
  · exact ends_pure (builds_element (.refl hsound) helement)
  · rename_i last hlast
    refine ends_get_bind ?_
    dsimp only
    split
    · have hstart : (PathSource.element element).Holds (before.rules schema clean) before.scope :=
        helement
      refine ends_bind (composites_ends path rfl (.element element) hstart _ _) ?_
      rintro ⟨source, type⟩ after ⟨rfl, htype, hplace, hsource, hbound⟩
      refine ends_bind (attributeReference_ends htype hplace hsource last path) ?_
      rintro attained after ⟨rfl, hattained, hfound⟩
      refine ends_pure (builds_reference ?_ hattained)
      rw [boundElements_source hfound, hbound]
      exact .refl hsound
    · refine ends_bind (joinThrough_finds hsound helement _) ?_
      rintro source after ⟨hadvances, hreaches⟩
      have hsource : (PathSource.element source).Holds (after.rules schema clean) after.scope :=
        hreaches
      refine ends_bind
        (attributeReference_ends rfl (.element source) hsource last path) ?_
      rintro attained between ⟨rfl, hattained, hfound⟩
      refine ends_pure (builds_reference ?_ hattained)
      rw [boundElements_source hfound]
      exact hadvances

theorem navigateIndexed_builds {after : Context} {indexed : IndexedReference}
    (hadvances : before.Advances schema clean indexed.boundElements after)
    (hindexed : indexed.Holds (after.rules schema clean) after.scope) (path : DottedName) :
    Ends schema after (navigateIndexed indexed path) fun value last =>
      before.Advances schema clean value.boundElements last
        ∧ value.Holds (last.rules schema clean) last.scope := by
  unfold navigateIndexed
  split
  · exact ends_pure ⟨hadvances, ⟨rfl, rfl⟩, hindexed⟩
  · rename_i last hlast
    cases indexed with
    | mk collection index type =>
      have hstart : (PathSource.indexed (.mk collection index type)).Holds
          (after.rules schema clean) after.scope := hindexed
      have hindices : (PathSource.indexed (.mk collection index type)).indices ≠ [] := by
        simp [PathSource.indices, IndexedReference.indices]
      refine ends_bind
        (attributes_ends path rfl (.indexed hindexed.1.1) hindices hstart _) ?_
      rintro ⟨source, found⟩ between ⟨rfl, htype, hplace, hsource, hbound⟩
      refine ends_bind (attributeReference_ends htype hplace hsource last path) ?_
      rintro attained between ⟨rfl, hattained, hfound⟩
      refine ends_pure (builds_reference ?_ hattained)
      rw [boundElements_source hfound, hbound]
      exact hadvances

/-- The element that a bare attribute belongs to is bound in an open scope. -/
theorem bareOwner_mem {name : String} {frames : List (List FromElement)} {element : FromElement}
    (h : bareOwner name frames = .ok (some element)) : ∃ frame ∈ frames, element ∈ frame := by
  induction frames with
  | nil => cases h
  | cons frame outer ih =>
    simp only [bareOwner] at h
    split at h
    · obtain ⟨found, hfound, hmem⟩ := ih h
      exact ⟨found, List.mem_cons_of_mem _ hfound, hmem⟩
    · rename_i only hcandidates
      cases h
      have hmem : element ∈ candidates name frame := by
        rw [hcandidates]
        exact List.mem_cons_self
      exact ⟨frame, List.mem_cons_self, (List.mem_filter.mp hmem).1⟩
    · cases h

theorem constant?_form {path : DottedName} {expression : Expression}
    (h : constant? schema path = some expression) :
    ∃ owner member type, expression = .constant owner member type := by
  simp only [constant?, Option.bind_eq_bind, Option.bind_eq_some_iff] at h
  obtain ⟨member, -, h⟩ := h
  split at h
  · cases h
  · simp only [Option.bind_eq_some_iff, Option.some.injEq] at h
    obtain ⟨owner, -, type, -, rfl⟩ := h
    exact ⟨owner, member, type, rfl⟩

theorem path_builds (hsound : before.Sound schema clean) (dotted : DottedName) :
    BuildsExpression schema clean before (path dotted) := by
  unfold path
  split
  · exact ends_throw _
  refine ends_get_bind (ends_read_bind ?_)
  split
  · rename_i element helement
    exact navigate_builds hsound (element?_reaches hsound helement) _ _
  split
  · exact ends_pure ⟨.refl hsound, rfl, rfl⟩
  split
  · rename_i constant hconstant
    obtain ⟨owner, member, type, rfl⟩ := constant?_form hconstant
    exact ends_pure ⟨.refl hsound, rfl, rfl⟩
  refine ends_bind (ends_ofExcept (Q := fun found after => before = after
    ∧ ∀ element, found = some element → before.Reaches element) ?_) ?_
  · intro found hfound
    refine ⟨rfl, fun element helement => ?_⟩
    subst helement
    obtain ⟨frame, hframe, hmem⟩ := bareOwner_mem hfound
    exact hsound.bound element (Trail.frames_subset frame hframe hmem)
  rintro found after ⟨rfl, hfound⟩
  split
  · exact navigate_builds hsound (hfound _ rfl) _ _
  · exact ends_throw _

theorem indexed_builds {index : Expression} {between : Context}
    (hadvances : before.Advances schema clean index.boundElements between)
    (hindex : index.Holds (between.rules schema clean) between.scope) (base : DottedName)
    (remainder : Option DottedName) :
    Ends schema between (indexed base index remainder) fun value after =>
      before.Advances schema clean value.boundElements after
        ∧ value.Holds (after.rules schema clean) after.scope := by
  refine ends_bind (path_builds hadvances.sound base) ?_
  rintro value after ⟨hlater, hvalue⟩
  split
  · rename_i collection
    split
    · rename_i position element hposition helement
      have hboth : before.Advances schema clean
          (IndexedReference.mk collection index element).boundElements after := by
        have htrans := hadvances.trans hlater
        refine { htrans with accounts := htrans.accounts.of_le fun uid => ?_ }
        simp only [IndexedReference.boundElements, Expression.boundElements, List.map_append,
          List.count_append]
        omega
      have hholds : (IndexedReference.mk collection index element).Holds
          (after.rules schema clean) after.scope := by
        refine ⟨⟨?_, helement⟩, hvalue.2, hindex.mono hlater.rules hlater.scope⟩
        change collection.type.index?.isSome
        rw [hposition]
        rfl
      dsimp only
      split
      · exact ends_pure ⟨hboth, ⟨rfl, rfl⟩, hholds⟩
      · have hpush := hboth.trans
          (hboth.sound.idle (.indexedElement :: after.resolvers) after.style? after.advisories)
        rw [List.append_nil] at hpush
        refine ends_under (ends_mono (navigateIndexed_builds hpush hholds _) ?_)
        rintro value last ⟨hlast, hvalue⟩
        have hpop := hlast.trans
          (hlast.sound.idle last.resolvers.tail last.style? last.advisories)
        rw [List.append_nil] at hpop
        exact ⟨hpop, hvalue⟩
    · exact ends_throw _
  · exact ends_throw _

theorem treated_builds (hsound : before.Sound schema clean) (base target : DottedName)
    (remainder : Option DottedName) :
    BuildsExpression schema clean before (treated base target remainder) := by
  refine ends_bind (fromElementPath_finds hsound base) ?_
  rintro element between ⟨hadvances, hreaches⟩
  refine ends_bind (treat_finds hadvances.sound hreaches target) ?_
  rintro narrowed after ⟨hlater, hnarrowed⟩
  have hboth := hadvances.trans hlater
  split
  · exact ends_pure (builds_element hboth hnarrowed)
  · refine ends_mono (navigate_builds hboth.sound hnarrowed _ _) ?_
    rintro value last ⟨hlast, hvalue⟩
    exact ⟨hboth.trans hlast, hvalue⟩

end EntityQuery.Interpretation.Step

import EntityQuery.Interpretation.Clause
import EntityQuery.Proofs.PlainPhrase
import EntityQuery.Proofs.SoundChanges

/-!
# Elements that steps make and find

Every element that a step makes, or finds for a variable or an implicit join, may be mentioned from
then on.

* `Step.Finds`: a step that ends in an element in reach.
* `Step.makeRoot_ends`, `Step.crossJoin_finds`, `Step.entityJoin_finds`, `Step.attributeJoin_finds`:
  making elements.
* `Step.newAttributeJoin_eq`: a join is made, noted and put into its space.
* `Step.implicitJoin?_reaches`: a join that is known already.
-/

namespace EntityQuery.Interpretation

/-- A number and a variable were drawn for a binding. -/
structure Draws (before : Context) (alias? : Option String) (type : TypeDescriptor)
    (binding : Binding) (nextAlias : Nat) : Prop where
  uid : binding.uid = before.nextUid
  type : binding.type = type
  drawn : (∃ aliasName, alias? = some aliasName ∧ binding.aliasName = aliasName
      ∧ binding.generated = false ∧ nextAlias = before.nextAlias)
    ∨ (alias? = none ∧ binding.aliasName = Context.generatedAlias before.nextAlias
      ∧ binding.generated = true ∧ nextAlias = before.nextAlias + 1)

namespace Draws

variable {clean : Prop} {before : Context} {alias? : Option String} {type : TypeDescriptor}
  {binding : Binding} {nextAlias : Nat}

theorem nextAlias_le (h : Draws before alias? type binding nextAlias) :
    before.nextAlias ≤ nextAlias := by
  rcases h.drawn with ⟨_, -, -, -, rfl⟩ | ⟨-, -, -, rfl⟩
  · exact Nat.le_refl _
  · exact Nat.le_succ _

theorem generated (h : Draws before alias? type binding nextAlias) (hnone : alias? = none) :
    binding.generated = true := by
  rcases h.drawn with ⟨aliasName, hsome, -⟩ | ⟨-, -, hgenerated, -⟩
  · cases hnone.symm.trans hsome
  · exact hgenerated

theorem named (h : Draws before alias? type binding nextAlias)
    (hplain : clean → Phrase.PlainVariable alias?) {element : FromElement}
    (helement : element.binding = binding) :
    clean → element.Named nextAlias := by
  intro hclean
  subst helement
  rcases h.drawn with ⟨aliasName, halias, hname, hwritten, -⟩ | ⟨-, hname, hgenerated, hnext⟩
  · refine ⟨fun hgenerated => ?_, fun _ number heq => ?_⟩
    · rw [hwritten] at hgenerated
      cases hgenerated
    · exact hplain hclean aliasName halias number (hname.symm.trans heq)
  · refine ⟨fun _ => ⟨before.nextAlias, by omega, hname⟩, fun hwritten => ?_⟩
    rw [hgenerated] at hwritten
    cases hwritten

theorem places (h : Draws before alias? type binding nextAlias) {place : Place}
    (hplace : alias?.isSome → place.above = []) {element : FromElement}
    (helement : element.binding = binding) :
    element.binding.generated = true
        ∧ element.aliasName = Context.generatedAlias before.nextAlias
      ∨ element.binding.generated = false ∧ place.above = [] := by
  subst helement
  rcases h.drawn with ⟨aliasName, rfl, -, hwritten, -⟩ | ⟨-, hname, hgenerated, -⟩
  · exact .inr ⟨hwritten, hplace rfl⟩
  · exact .inl ⟨hgenerated, hname⟩

end Draws

namespace Step

variable {schema : Schema} {clean : Prop} {before : Context}

theorem ends_newBinding {alias? : Option String} {type : TypeDescriptor}
    {Q : Binding → Context → Prop}
    (h : ∀ binding nextAlias, Draws before alias? type binding nextAlias →
      Q binding { before with nextUid := before.nextUid + 1, nextAlias }) :
    Ends schema before (newBinding alias? type) Q := by
  unfold newBinding
  cases alias? with
  | some aliasName =>
    refine ends_bind (ends_drawUid (Q := fun uid after => uid = before.nextUid
      ∧ after = { before with nextUid := before.nextUid + 1 }) ⟨rfl, rfl⟩) ?_
    rintro uid after ⟨rfl, rfl⟩
    exact ends_pure (h _ before.nextAlias ⟨rfl, rfl, .inl ⟨aliasName, rfl, rfl, rfl, rfl⟩⟩)
  | none =>
    refine ends_bind (ends_drawAlias (Q := fun aliasName after =>
      aliasName = Context.generatedAlias before.nextAlias
        ∧ after = { before with nextAlias := before.nextAlias + 1 }) ⟨rfl, rfl⟩) ?_
    rintro aliasName after ⟨rfl, rfl⟩
    refine ends_bind (ends_drawUid (Q := fun uid after => uid = before.nextUid
      ∧ after = { before with
        nextUid := before.nextUid + 1, nextAlias := before.nextAlias + 1 }) ⟨rfl, rfl⟩) ?_
    rintro uid after ⟨rfl, rfl⟩
    exact ends_pure (h _ (before.nextAlias + 1) ⟨rfl, rfl, .inr ⟨rfl, rfl, rfl, rfl⟩⟩)

/-- A space gets an element more, which is registered and bound. -/
theorem ends_place {id : SpaceId} {element : FromElement}
    {change : OpenSpace → Except Fault OpenSpace} {Q : Unit → Context → Prop}
    (h : ∀ place space filled trail, before.levels = Place.fill place space → place.id = id →
      change space = .ok filled → before.trail.bind element = .ok trail →
        Q () { before with
          registered := element :: before.registered
          levels := place.fill filled
          trail }) :
    Ends schema before (do updateSpace id change; registerElement element) Q := by
  refine ends_bind (ends_updateSpace (Q := fun _ after => ∃ place space filled,
    before.levels = Place.fill place space ∧ place.id = id ∧ change space = .ok filled
      ∧ after = { before with levels := place.fill filled }) ?_) ?_
  · intro levels hupdate
    obtain ⟨place, space, filled, hopened, rfl, hid, hchange⟩ := Levels.update_ok hupdate
    exact ⟨place, space, filled, hopened, hid, hchange, rfl⟩
  · rintro _ after ⟨place, space, filled, hopened, hid, hchange, rfl⟩
    exact ends_registerElement fun trail hbind =>
      h place space filled trail hopened hid hchange hbind

/-- A step that ends in an element that may be mentioned. -/
def Finds (schema : Schema) (clean : Prop) (before : Context) (step : Step FromElement) : Prop :=
  Ends schema before step fun element after =>
    before.Advances schema clean [] after ∧ after.Reaches element

theorem place_above {place : Place} {space : OpenSpace} {levels : Levels}
    (hopened : levels = place.fill space) (hid : place.id.level + 1 = levels.length) :
    place.above = [] := by
  subst hopened
  simp only [Place.id, Place.fill, List.length_append, List.length_cons] at hid
  exact List.eq_nil_of_length_eq_zero (by omega)

/-! ## Roots and joins over entities -/

/-- The element starts from no other one. -/
def isStart : FromElement → Bool
  | .root _ => true
  | .crossJoin _ => true
  | .entityJoin _ _ => true
  | _ => false

theorem isStart_spec (schema : Schema) (marks : Narrowings) {element : FromElement}
    (h : isStart element = true) :
    element.chain = [element] ∧ element.unwrapped = element ∧ element.Ordered
      ∧ element.JoinTyped schema marks ∧ element.implicitStep? = none := by
  cases element with
  | root binding => exact ⟨rfl, rfl, trivial, trivial, rfl⟩
  | crossJoin binding => exact ⟨rfl, rfl, trivial, trivial, rfl⟩
  | entityJoin binding joinType => exact ⟨rfl, rfl, trivial, trivial, rfl⟩
  | attributeJoin binding source join => cases h
  | treated binding wrapped => cases h

theorem start_places (schema : Schema) {binding : Binding} {alias? : Option String}
    {type : TypeDescriptor} {nextAlias : Nat}
    (hdraws : Draws before alias? type binding nextAlias)
    (hplain : clean → Phrase.PlainVariable alias?) (element : FromElement)
    (hbinding : element.binding = binding) (hstart : isStart element = true) {place : Place}
    {space filled : OpenSpace} {trail : Trail}
    (hopened : before.levels = place.fill space) (habove : place.above = [])
    (hadds : space.Adds element filled) (hbind : before.trail.bind element = .ok trail) :
    Context.Places schema clean before element place space filled
      { before with
        nextUid := before.nextUid + 1
        nextAlias
        registered := element :: before.registered
        levels := place.fill filled
        trail } := by
  obtain ⟨hchain, hbare, hordered, htyped, hstep⟩ :=
    isStart_spec schema before.narrowings hstart
  refine ⟨?_, rfl, hdraws.nextAlias_le, rfl, hopened, rfl, hadds, hbind, ?_, hbare, hordered,
    htyped, List.prefix_refl _, fun _ hmark => .inl hmark, hdraws.named hplain hbinding,
    hdraws.places (fun _ => habove) hbinding, .inl ⟨hstep, rfl⟩⟩
  · rw [← hdraws.uid, ← hbinding]
    rfl
  · intro part hpart
    rw [hchain] at hpart
    exact .inl (List.mem_singleton.mp hpart)

theorem attach_finds (hsound : before.Sound schema clean) {id : SpaceId}
    (hid : id.level + 1 = before.levels.length) {alias? : Option String}
    (hplain : clean → Phrase.PlainVariable alias?) {type : TypeDescriptor}
    (make : Binding → FromElement)
    (hbinding : ∀ binding, (make binding).binding = binding)
    (hstart : ∀ binding, isStart (make binding) = true) :
    Finds schema clean before (do
      let element := make (← newBinding alias? type)
      attach id element
      return element) := by
  refine ends_bind (ends_newBinding (Q := fun binding after => ∃ nextAlias,
    Draws before alias? type binding nextAlias
      ∧ after = { before with nextUid := before.nextUid + 1, nextAlias })
    fun binding nextAlias hdraws => ⟨nextAlias, hdraws, rfl⟩) ?_
  rintro binding after ⟨nextAlias, hdraws, rfl⟩
  refine ends_bind (ends_place (Q := fun _ after => before.Advances schema clean [] after
    ∧ after.Reaches (make binding)) ?_) fun _ after h => ends_pure h
  intro place space filled trail hopened hplace hchange hbind
  obtain ⟨hadds, hroot⟩ := OpenSpace.addJoin_adds hchange
  have habove := place_above hopened (by rw [hplace]; exact hid)
  have hplaces := start_places schema hdraws hplain (make binding) (hbinding binding)
    (hstart binding) hopened habove hadds hbind
  exact ⟨hplaces.advances hsound hroot, hplaces.reaches⟩

theorem ends_ensureMapped {entity : EntityReference} {form : EntityJoinForm}
    {Q : Unit → Context → Prop} (h : Q () before) :
    Ends schema before (ensureMapped entity form) Q := by
  unfold ensureMapped
  split
  · exact ends_throw _
  · exact ends_pure h

theorem crossJoin_finds (hsound : before.Sound schema clean) {id : SpaceId}
    (hid : id.level + 1 = before.levels.length) {alias? : Option String}
    (hplain : clean → Phrase.PlainVariable alias?) (entity : EntityReference) :
    Finds schema clean before (crossJoin id entity alias?) := by
  refine ends_bind (ends_ensureMapped (Q := fun _ after => before = after) rfl) ?_
  rintro _ after rfl
  exact attach_finds hsound hid hplain .crossJoin (fun _ => rfl) fun _ => rfl

theorem entityJoin_finds (hsound : before.Sound schema clean) {id : SpaceId}
    (hid : id.level + 1 = before.levels.length) {alias? : Option String}
    (hplain : clean → Phrase.PlainVariable alias?) (entity : EntityReference)
    (joinType : JoinType) :
    Finds schema clean before (entityJoin id alias? entity joinType) := by
  refine ends_bind (ends_ensureMapped (Q := fun _ after => before = after) rfl) ?_
  rintro _ after rfl
  exact attach_finds hsound hid hplain (fun binding => .entityJoin binding joinType) (fun _ => rfl)
    fun _ => rfl

/-- Making a root fills a vacant space of the current level. -/
theorem makeRoot_ends (hsound : before.Sound schema clean) {id : SpaceId}
    (hid : id.level + 1 = before.levels.length) {alias? : Option String}
    (hplain : clean → Phrase.PlainVariable alias?) (entity : EntityReference) :
    Ends schema before (makeRoot id entity alias?) fun element after =>
      before.Extends schema clean [] after ∧ after.trail.results = before.trail.results
        ∧ after.Reaches element ∧ (∃ binding, element = .root binding)
        ∧ element.type = entity.type
        ∧ ∃ place, before.levels = Place.fill place .vacant ∧ place.id = id
          ∧ after.levels = place.fill (.rooted element []) := by
  refine ends_bind (ends_newBinding (Q := fun binding after => ∃ nextAlias,
    Draws before alias? entity.type binding nextAlias
      ∧ after = { before with nextUid := before.nextUid + 1, nextAlias })
    fun binding nextAlias hdraws => ⟨nextAlias, hdraws, rfl⟩) ?_
  rintro binding after ⟨nextAlias, hdraws, rfl⟩
  refine ends_bind (ends_updateSpace (Q := fun _ after => ∃ place,
    before.levels = Place.fill place .vacant ∧ place.id = id
      ∧ after = { before with
        nextUid := before.nextUid + 1
        nextAlias
        levels := place.fill (.rooted (.root binding) []) }) ?_) ?_
  · intro levels hupdate
    obtain ⟨place, space, filled, hopened, rfl, hplace, hchange⟩ := Levels.update_ok hupdate
    obtain ⟨-, rfl, rfl⟩ := OpenSpace.setRoot_adds hchange
    exact ⟨place, hopened, hplace, rfl⟩
  rintro _ after ⟨place, hopened, hplace, rfl⟩
  refine ends_bind (ends_registerElement (Q := fun _ after =>
    before.Extends schema clean [] after ∧ after.trail.results = before.trail.results
      ∧ after.Reaches (.root binding) ∧ after.levels = place.fill (.rooted (.root binding) []))
    ?_) ?_
  · intro trail hbind
    have habove := place_above hopened (by rw [hplace]; exact hid)
    obtain ⟨hadds, -, -⟩ := OpenSpace.setRoot_adds
      (show OpenSpace.vacant.setRoot (.root binding) = .ok (.rooted (.root binding) []) from rfl)
    have hplaces := start_places schema hdraws hplain (.root binding) rfl rfl hopened
      habove hadds hbind
    refine ⟨hplaces.extending hsound ?_, ?_, hplaces.reaches, rfl⟩
    · rw [hplaces.levels, hopened]
      simp [Place.fill, habove, Levels.roots]
    · obtain ⟨rfl, -⟩ := Trail.bind_ok hbind
      rfl
  · rintro _ after ⟨hextends, hresults, hreaches, hlevels⟩
    exact ends_pure ⟨hextends, hresults, hreaches, ⟨binding, rfl⟩, hdraws.type, place, hopened,
      hplace, hlevels⟩

/-! ## Joins through attributes -/

theorem ends_attributeType {declared : Attribute} {Q : TypeDescriptor → Context → Prop}
    (h : ∀ type, schema.resolve? declared.type = some type → Q type before) :
    Ends schema before (attributeType declared) Q := by
  refine ends_read_bind ?_
  cases htype : schema.resolve? declared.type with
  | none => exact ends_throw _
  | some type => exact ends_pure (h type htype)

/-- Where a join through an attribute may be put: its source is in reach at the place. An implicit
join is put into the space of its source, any other one into a space of the current level. -/
def JoinFits (before : Context) (request : JoinRequest) : Prop :=
  ∀ place space, before.levels = Place.fill place space → place.id = request.space →
    request.source.Within (place.scope space)
      ∧ (request.implicit = true → request.source.unwrapped ∈ space.elements)
      ∧ (request.implicit = false → place.above = [])

/-- The join that a request asks for. -/
def requested (request : JoinRequest) (declared : Attribute) (type : TypeDescriptor)
    (binding : Binding) : FromElement :=
  .attributeJoin binding request.source
    { declared, type, joinType := request.joinType, fetched := request.fetched,
      implicit := request.implicit, path := request.path }

/-- What is known of a new join before it stands in its space: what it is narrowed to and, if it is
implicit, what it leads through. -/
def noteJoin (request : JoinRequest) (declared : Attribute) (join : Nat) (context : Context) :
    Context :=
  { context with
    narrowings :=
      match request.narrowed? with
      | some entity => context.narrowings.add join entity
      | none => context.narrowings
    implicitJoins :=
      if request.implicit then ⟨request.source.uid, declared.name, join⟩ :: context.implicitJoins
      else context.implicitJoins }

/-- A join is made, noted and put into its space. -/
theorem newAttributeJoin_eq (request : JoinRequest) (declared : Attribute) :
    newAttributeJoin request declared = do
      let type ← attributeType declared
      if type.isBasic then throw (.basicJoin request.path)
      let binding ← newBinding request.alias? (joinedType request.narrowed? type)
      modify (noteJoin request declared binding.uid)
      attach request.space (requested request declared type binding)
      return requested request declared type binding := by
  refine bind_congr fun type => ?_
  dsimp only
  split
  · rfl
  refine bind_congr fun binding => ?_
  -- Two changes of the state after each other are one.
  obtain ⟨_, _, _, narrowed?, _, _, _, _, implicit⟩ := request
  cases narrowed? <;> cases implicit <;> rfl

section

variable {request : JoinRequest} (declared : Attribute) {join : Nat} {context : Context}

theorem narrowings_noteJoin :
    context.narrowings <+: (noteJoin request declared join context).narrowings := by
  unfold noteJoin
  dsimp only
  split
  · exact Narrowings.prefix_add _ _ _
  · exact List.prefix_refl _

theorem mem_narrowings_noteJoin :
    ∀ mark ∈ (noteJoin request declared join context).narrowings,
      mark ∈ context.narrowings ∨ mark.uid = join := by
  unfold noteJoin
  dsimp only
  split
  · exact fun _ => Narrowings.mem_add
  · exact fun _ => .inl

/-- The first mark of a new join is what it is narrowed to. -/
theorem head?_narrowings_noteJoin (hfresh : ∀ mark ∈ context.narrowings, mark.uid ≠ join)
    {target : EntityReference} (h : request.narrowed? = some target) :
    ((noteJoin request declared join context).narrowings.of join).head? = some target := by
  simp only [noteJoin, h]
  exact Narrowings.of_add_head? hfresh target

theorem implicitJoins_noteJoin (request : JoinRequest) (join : Nat) (context : Context) :
    request.implicit = false
        ∧ (noteJoin request declared join context).implicitJoins = context.implicitJoins
      ∨ request.implicit = true
        ∧ (noteJoin request declared join context).implicitJoins
          = ⟨request.source.uid, declared.name, join⟩ :: context.implicitJoins := by
  unfold noteJoin
  cases request.implicit
  · exact .inl ⟨rfl, rfl⟩
  · exact .inr ⟨rfl, rfl⟩

end

section

variable {request : JoinRequest} {declared : Attribute} {type : TypeDescriptor}

/-- The join of a request that was noted is put into its space. -/
theorem attach_requested (hsound : before.Sound schema clean)
    (hsource : before.Reaches request.source)
    (hdeclared : request.source.type.declared? declared.name = some declared)
    (htype : schema.resolve? declared.type = some type) (hbasic : type.isBasic = false)
    (himplicit : request.implicit = true → request.alias? = none ∧ request.narrowed? = none)
    (hplain : clean → Phrase.PlainVariable request.alias?) (hfits : JoinFits before request)
    (hnone : request.implicit = true →
      before.implicitJoin? request.source.uid declared.name = none)
    {binding : Binding} {nextAlias : Nat}
    (hdraws : Draws before request.alias? (joinedType request.narrowed? type) binding nextAlias) :
    Ends schema
      (noteJoin request declared binding.uid { before with nextUid := before.nextUid + 1, nextAlias })
      (do
        attach request.space (requested request declared type binding)
        return requested request declared type binding)
      fun element after => before.Advances schema clean [] after ∧ after.Reaches element := by
  refine ends_bind (ends_place (Q := fun _ after => before.Advances schema clean [] after
    ∧ after.Reaches (requested request declared type binding)) ?_) fun _ after h => ends_pure h
  intro place space filled trail hopened hplace hchange hbind
  obtain ⟨hadds, hroot⟩ := OpenSpace.addJoin_adds hchange
  obtain ⟨hwithin, hspace, habove⟩ := hfits place space hopened hplace
  have hunmarked : ∀ mark ∈ before.narrowings, mark.uid ≠ binding.uid := by
    intro mark hmark
    have hlt := hsound.marked mark hmark
    have huid := hdraws.uid
    omega
  have hplaces : Context.Places schema clean before (requested request declared type binding) place
      space filled
      { noteJoin request declared binding.uid
          { before with nextUid := before.nextUid + 1, nextAlias } with
        registered := requested request declared type binding :: before.registered
        trail
        levels := place.fill filled } := by
    refine ⟨hdraws.uid, rfl, hdraws.nextAlias_le, rfl, hopened, rfl, hadds, hbind, ?_, rfl, ?_, ?_,
      narrowings_noteJoin declared, mem_narrowings_noteJoin declared, hdraws.named hplain rfl,
      hdraws.places ?_ rfl, ?_⟩
    · intro part hpart
      rcases List.mem_cons.mp hpart with rfl | hpart
      · exact .inl rfl
      · exact .inr ⟨hsound.closed _ hsource.1 hpart, hwithin part hpart⟩
    · have hfresh := hsound.fresh _ hsource.1
      rw [← hdraws.uid] at hfresh
      exact hfresh
    · exact ⟨hdeclared, htype, hbasic, request.narrowed?, hdraws.type,
        fun _ => head?_narrowings_noteJoin declared hunmarked, fun h => (himplicit h).2⟩
    · intro hwritten
      refine habove (Bool.eq_false_iff.mpr fun h => ?_)
      rw [(himplicit h).1] at hwritten
      cases hwritten
    · rcases implicitJoins_noteJoin declared request binding.uid
        { before with nextUid := before.nextUid + 1, nextAlias }
        with ⟨hwritten, hjoins⟩ | ⟨h, hjoins⟩
      · exact .inl ⟨by simp [requested, FromElement.implicitStep?, hwritten], hjoins⟩
      · exact .inr ⟨request.source, declared.name,
          by simp [requested, FromElement.implicitStep?, h], hdraws.generated (himplicit h).1,
          hsource.1, hspace h, hnone h, hjoins⟩
  exact ⟨hplaces.advances hsound hroot, hplaces.reaches⟩

theorem newAttributeJoin_finds (hsound : before.Sound schema clean)
    (hsource : before.Reaches request.source)
    (hdeclared : request.source.type.declared? declared.name = some declared)
    (himplicit : request.implicit = true → request.alias? = none ∧ request.narrowed? = none)
    (hplain : clean → Phrase.PlainVariable request.alias?) (hfits : JoinFits before request)
    (hnone : request.implicit = true →
      before.implicitJoin? request.source.uid declared.name = none) :
    Finds schema clean before (newAttributeJoin request declared) := by
  rw [newAttributeJoin_eq]
  refine ends_bind (ends_attributeType (Q := fun type after =>
    schema.resolve? declared.type = some type ∧ before = after) fun type htype => ⟨htype, rfl⟩) ?_
  rintro type after ⟨htype, rfl⟩
  dsimp only
  split
  · exact ends_throw_bind _ _
  rename_i hbasic
  refine ends_bind (ends_newBinding (Q := fun binding after => ∃ nextAlias,
    Draws before request.alias? (joinedType request.narrowed? type) binding nextAlias
      ∧ after = { before with nextUid := before.nextUid + 1, nextAlias })
    fun binding nextAlias hdraws => ⟨nextAlias, hdraws, rfl⟩) ?_
  rintro binding after ⟨nextAlias, hdraws, rfl⟩
  exact ends_modify_bind (attach_requested hsound hsource hdeclared htype
    (Bool.eq_false_iff.mpr hbasic) himplicit hplain hfits hnone hdraws)

/-- An implicit join that was made before is in reach where its source is. -/
theorem implicitJoin?_reaches (hsound : before.Sound schema clean) {source join : FromElement}
    {name : String} (hsource : before.Reaches source)
    (h : before.implicitJoin? source.uid name = some join) : before.Reaches join := by
  obtain ⟨known, hknown, hfind⟩ := Option.bind_eq_some_iff.mp h
  have hmem := List.mem_of_find?_eq_some hknown
  have hkey := List.find?_some hknown
  have hjoin := List.mem_of_find?_eq_some hfind
  have huid := List.find?_some hfind
  simp only [Bool.and_eq_true, beq_iff_eq] at hkey huid
  have hsource' := hsource.2.unwrapped_mem
  rw [Context.scope, Levels.elements_eq_flatMap] at hsource'
  obtain ⟨space, hspace, hplace⟩ := List.mem_flatMap.mp hsource'
  have hspaceJoin := hsound.joined known hmem source hsource.1 join hjoin hkey.1.symm huid space
    hspace hplace
  have hlevels : join.unwrapped ∈ before.levels.elements := by
    rw [Levels.elements_eq_flatMap]
    exact List.mem_flatMap.mpr ⟨space, hspace, hspaceJoin⟩
  have hfit := hsound.fit.element (Resolved.builtRules_implies fun _ h => h) join.unwrapped hlevels
  exact ⟨hjoin, FromElement.within_of_unwrapped hfit.2⟩

/-- The attribute that may be joined is the one that is asked for; an implicit join has no alias. -/
theorem ends_joinableAttribute {Q : Attribute → Context → Prop}
    (h : ∀ declared, request.declared? = some declared →
      (request.implicit = true → request.alias? = none) → Q declared before) :
    Ends schema before (joinableAttribute request) Q := by
  unfold joinableAttribute
  dsimp only
  split
  · exact ends_throw_bind _ _
  split
  · exact ends_throw_bind _ _
  rename_i haliased
  split
  · exact ends_throw _
  rename_i declared hsome
  split
  · exact ends_throw_bind _ _
  refine ends_pure (h declared hsome fun himplicit => ?_)
  cases halias : request.alias? with
  | none => rfl
  | some aliasName => simp [himplicit, halias] at haliased

theorem attributeJoin_finds (hsound : before.Sound schema clean)
    (hsource : before.Reaches request.source)
    (hdeclared : ∀ declared, request.declared? = some declared →
      request.source.type.declared? declared.name = some declared)
    (himplicit : request.implicit = true → request.narrowed? = none)
    (hplain : clean → Phrase.PlainVariable request.alias?) (hfits : JoinFits before request) :
    Finds schema clean before (attributeJoin request) := by
  unfold attributeJoin
  refine ends_bind (ends_joinableAttribute (Q := fun declared after => before = after
    ∧ request.declared? = some declared ∧ (request.implicit = true → request.alias? = none))
    fun _ hsome halias => ⟨rfl, hsome, halias⟩) ?_
  rintro declared after ⟨rfl, hsome, halias⟩
  have hnew := newAttributeJoin_finds hsound hsource (hdeclared declared hsome)
    (fun h => ⟨halias h, himplicit h⟩) hplain hfits
  split
  · refine ends_get_bind ?_
    split
    · rename_i known hknown
      exact ends_pure ⟨.refl hsound, implicitJoin?_reaches hsound hsource hknown⟩
    · rename_i hnone
      exact hnew fun _ => hnone
  · rename_i hwritten
    exact hnew fun h => absurd h hwritten

end

end Step
end EntityQuery.Interpretation

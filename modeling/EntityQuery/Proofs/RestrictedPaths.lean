import EntityQuery.Proofs.BuiltCalls
import EntityQuery.Proofs.Spreading

/-!
# Paths in the restriction of a join

In the restriction of a join, a path starts from an element of the space of the join or of an outer
level, and the implicit joins on the way stand in the space that the path starts from. What paths
refer to is therefore near, and stays so.

* `Context.Restricting`: a sound state in which the restriction of a join is read.
* `Step.Minds`: a step whose result mentions near elements only, nested queries apart.
* `Step.implicitJoin_nears`, `Step.fromElementPath_nears`, `Step.treat_nears`: elements.
* `Step.navigate_minds`, `Step.path_minds`, `Step.indexed_minds`, `Step.treated_minds`: expressions.
-/

namespace EntityQuery.Interpretation

open Resolved (AttributeReference Expression IndexedReference PathSource)

/-! ## Spaces that get implicit joins -/

theorem OpenSpace.Spreads.elements {space after : OpenSpace} (h : space.Spreads after) :
    space.elements ⊆ after.elements := by
  cases space with
  | vacant => exact List.nil_subset _
  | rooted root joins =>
    obtain ⟨more, rfl, -⟩ := h
    exact List.cons_subset_cons root (List.map_subset _ (List.subset_append_left joins more))

namespace Levels

theorem Spreads.elements {levels more : Levels} (h : levels.Spreads more) :
    levels.elements ⊆ more.elements := by
  induction h with
  | nil => exact fun _ h => h
  | cons hfirst _ ih =>
    refine List.append_subset.mpr ⟨List.Subset.trans ?_ (List.subset_append_left _ _),
      List.Subset.trans ih (List.subset_append_right _ _)⟩
    induction hfirst with
    | nil => exact fun _ h => h
    | cons hspace _ ih =>
      exact List.append_subset.mpr ⟨List.Subset.trans hspace.elements (List.subset_append_left _ _),
        List.Subset.trans ih (List.subset_append_right _ _)⟩

/-- What is related to a list in two parts is one in two parts. -/
theorem forall₂_append_right {α β : Type} {R : α → β → Prop} {items : List α} {front back : List β}
    (h : List.Forall₂ R items (front ++ back)) :
    ∃ first second, items = first ++ second ∧ List.Forall₂ R first front
      ∧ List.Forall₂ R second back :=
  ⟨items.take front.length, items.drop front.length, (List.take_append_drop _ _).symm,
    List.forall₂_take_append _ _ _ h, List.forall₂_drop_append _ _ _ h⟩

/-- A place in the levels after paths is one in the levels before. -/
theorem Spreads.place {levels : Levels} {place : Place} {filled : OpenSpace}
    (h : levels.Spreads (place.fill filled)) :
    ∃ before space, levels = Place.fill before space ∧ before.id = place.id
      ∧ space.Spreads filled ∧ before.below.Spreads place.below := by
  obtain ⟨above, rest, rfl, -, hrest⟩ := forall₂_append_right h
  obtain ⟨clause, below, hclause, hbelow, rfl⟩ := List.forall₂_cons_right_iff.mp hrest
  obtain ⟨left, back, rfl, hleft, hback⟩ := forall₂_append_right hclause
  obtain ⟨space, right, hspace, -, rfl⟩ := List.forall₂_cons_right_iff.mp hback
  refine ⟨⟨above, left, right, below⟩, space, rfl, ?_, hspace, hbelow⟩
  rw [Place.id, Place.id, List.Forall₂.length_eq hleft, List.Forall₂.length_eq hbelow]

/-- What is near stays near. -/
theorem Near.spreads {levels more : Levels} {id : SpaceId} {element : FromElement}
    (h : levels.Near id element) (hspreads : levels.Spreads more) : more.Near id element := by
  rintro place filled rfl hid
  obtain ⟨before, space, hopened, hsame, hspace, hbelow⟩ := hspreads.place
  rcases List.mem_append.mp (h before space hopened (hsame.trans hid)) with hmem | hmem
  · exact List.mem_append_left _ (hspace.elements hmem)
  · exact List.mem_append_right _ (hbelow.elements hmem)

/-- The space of an element in scope is found. -/
theorem spaceOf?_isSome {levels : Levels} {element : FromElement} (h : element ∈ levels.elements) :
    (levels.spaceOf? element.uid).isSome = true := by
  induction levels with
  | nil => cases h
  | cons spaces below ih =>
    simp only [spaceOf?]
    split
    · rfl
    · rename_i hnone
      rcases List.mem_append.mp h with hmem | hmem
      · obtain ⟨space, hspace, helement⟩ := List.mem_flatMap.mp hmem
        have hcontains := List.findIdx?_eq_none_iff.mp hnone space hspace
        have hheld : space.contains element.uid = true :=
          List.any_eq_true.mpr ⟨element, helement, beq_self_eq_true _⟩
        rw [hheld] at hcontains
        cases hcontains
      · exact ih hmem

/-- What stands in an open space of another level than the innermost one stands in an outer one. -/
theorem mem_below {place current : Place} {space other : OpenSpace}
    (hsame : place.fill space = current.fill other) (hcurrent : current.above = [])
    (hlevel : place.id.level ≠ current.id.level) {element : FromElement}
    (helement : element ∈ space.elements) : element ∈ current.below.elements := by
  obtain ⟨above, left, right, below⟩ := place
  obtain ⟨_, left', right', below'⟩ := current
  cases hcurrent
  cases above with
  | nil =>
    obtain ⟨-, rfl⟩ := List.cons.inj hsame
    exact absurd rfl hlevel
  | cons spaces above =>
    obtain ⟨-, rfl⟩ := List.cons.inj hsame
    change element ∈ (Place.fill ⟨above, left, right, below⟩ space).elements
    exact Place.scope_subset_fill (Place.mem_scope helement)

end Levels

/-! ## States in which a restriction is read -/

/-- Across the steps of a restriction, open spaces get implicit joins only, and the resolvers stay
as they are. -/
def Settles (before after : Context) : Prop :=
  before.levels.Spreads after.levels ∧ after.resolvers = before.resolvers

theorem settleMotion (schema : Schema) (treat : DottedName → Prop) :
    Motion schema treat Settles fun before after =>
      SpreadsBelow before after ∧ after.resolvers = before.resolvers where
  refl context := ⟨.refl _, rfl⟩
  trans _ _ _ h h' := ⟨h.1.trans h'.1, h'.2.trans h.2⟩
  within before after h := ⟨(spreadMotion schema treat).within before after h.1, h.2⟩
  transWithin first second third h h' :=
    ⟨(spreadMotion schema treat).transWithin first second third h.1 h'.1, h'.2.trans h.2⟩
  depth before after h := (spreadMotion schema treat).depth before after h.1
  idle _ _ _ _ _ _ _ := ⟨.refl _, rfl⟩
  register _ _ _ := ⟨.refl _, rfl⟩
  bind _ _ _ _ _ := ⟨.refl _, rfl⟩
  joinImplicitly context place root joins binding source join himplicit hdrawn hopened hcontains :=
    ⟨(spreadMotion schema treat).joinImplicitly context place root joins binding source join
      himplicit hdrawn hopened hcontains, rfl⟩
  resolve before after resolver h := by
    refine ⟨h.1, ?_⟩
    change after.resolvers.tail = before.resolvers
    rw [h.2]
    rfl
  nest before after h := by
    refine ⟨h.1.2, ?_⟩
    change after.resolvers.tail = before.resolvers
    rw [h.2]
    rfl
  openSpace context id levels hopen :=
    ⟨(spreadMotion schema treat).openSpace context id levels hopen, rfl⟩
  declare context element trail hbind :=
    ⟨(spreadMotion schema treat).declare context element trail hbind, rfl⟩
  fill context place space filled hopened habove :=
    ⟨(spreadMotion schema treat).fill context place space filled hopened habove, rfl⟩
  select context result := ⟨(spreadMotion schema treat).select context result, rfl⟩

/-- A sound state in which the restriction of a join of a space of the innermost from clause is
read. -/
structure Context.Restricting (schema : Schema) (clean : Prop) (id : SpaceId)
    (context : Context) : Prop where
  sound : context.Sound schema clean
  resolver : context.resolver = .joinRestriction id
  current : id.level + 1 = context.levels.length

/-- Pushing the resolver of a join's restriction leads to such a state. -/
theorem Context.Sound.restricting {schema : Schema} {clean : Prop} {context : Context}
    (h : context.Sound schema clean) {id : SpaceId}
    (hcurrent : id.level + 1 = context.levels.length) :
    (context.pushResolver (.joinRestriction id)).Restricting schema clean id where
  sound := (h.idle _ context.style? context.advisories).sound
  resolver := rfl
  current := hcurrent

theorem Context.Restricting.settles {schema : Schema} {clean : Prop} {id : SpaceId}
    {before after : Context} (h : before.Restricting schema clean id)
    (hsound : after.Sound schema clean) (hsettles : Settles before after) :
    after.Restricting schema clean id where
  sound := hsound
  resolver := by
    rw [Context.resolver, hsettles.2]
    exact h.resolver
  current := by
    rw [← List.Forall₂.length_eq hsettles.1]
    exact h.current

namespace Step

variable {schema : Schema} {clean : Prop} {id : SpaceId} {before : Context}

/-- A step of a restriction, with what holds of its result where it ends. -/
def Settling {α : Type} (schema : Schema) (clean : Prop) (id : SpaceId) (Q : α → Context → Prop)
    (before : Context) (step : Step α) : Prop :=
  Ends schema before step fun value after =>
    after.Restricting schema clean id ∧ Settles before after ∧ Q value after

section

variable {α β : Type} {Q : α → Context → Prop} {R : β → Context → Prop}

theorem settling_pure (hbefore : before.Restricting schema clean id) {value : α}
    (h : Q value before) : Settling schema clean id Q before (pure value) :=
  ends_pure ⟨hbefore, ⟨.refl _, rfl⟩, h⟩

theorem settling_bind {first : Step α} {next : α → Step β}
    (hfirst : Settling schema clean id Q before first)
    (hnext : ∀ value between, between.Restricting schema clean id → Settles before between →
      Q value between → Settling schema clean id R between (next value)) :
    Settling schema clean id R before (first >>= next) := by
  refine ends_bind hfirst ?_
  rintro value between ⟨hbetween, hsettles, hvalue⟩
  refine ends_mono (hnext value between hbetween hsettles hvalue) ?_
  rintro found after ⟨hafter, hlater, hfound⟩
  exact ⟨hafter, (settleMotion schema fun _ => True).trans _ _ _ hsettles hlater, hfound⟩

/-- A step that keeps states sound and spaces settled is one of a restriction. -/
theorem settling_of {step : Step α} {P : α → Context → Prop}
    (hbefore : before.Restricting schema clean id)
    (hsound : Ends schema before step fun value after => after.Sound schema clean ∧ P value after)
    (hmoves : Moves schema False Settles before step)
    (himp : ∀ value after, after.Restricting schema clean id → Settles before after →
      P value after → Q value after) : Settling schema clean id Q before step := by
  intro value after hrun
  obtain ⟨hafter, hvalue⟩ := hsound value after hrun
  have hsettles := hmoves.ends value after hrun
  have hrestricting := hbefore.settles hafter hsettles
  exact ⟨hrestricting, hsettles, himp value after hrestricting hsettles hvalue⟩

end

/-- A step that ends in an element that is near and may be mentioned. -/
abbrev Nears (schema : Schema) (clean : Prop) (id : SpaceId) : Context → Step FromElement → Prop :=
  Settling schema clean id fun element after =>
    after.Reaches element ∧ after.levels.Near id element

/-- A step whose result mentions, outside nested queries, elements that are near. -/
abbrev Minds {α : Type} (own : α → List FromElement) (schema : Schema) (clean : Prop)
    (id : SpaceId) : Context → Step α → Prop :=
  Settling schema clean id fun value after => ∀ element ∈ own value, after.levels.Near id element

section

variable {α β γ δ : Type} {first : Step α} {second : Step β} {third : Step γ}
  {ownFirst : α → List FromElement} {ownSecond : β → List FromElement}
  {ownThird : γ → List FromElement} {own : δ → List FromElement}

theorem one_minds {combine : α → δ} (hfirst : Minds ownFirst schema clean id before first)
    (hown : ∀ one, own (combine one) = ownFirst one) :
    Minds own schema clean id before (do
      let one ← first
      return combine one) := by
  refine settling_bind hfirst fun one between hbetween _ hone => settling_pure hbetween ?_
  rw [hown]
  exact hone

theorem two_mind {combine : α → β → δ} (hfirst : Minds ownFirst schema clean id before first)
    (hsecond : ∀ {between : Context}, between.Restricting schema clean id →
      Minds ownSecond schema clean id between second)
    (hown : ∀ one two, own (combine one two) = ownFirst one ++ ownSecond two) :
    Minds own schema clean id before (do
      let one ← first
      let two ← second
      return combine one two) := by
  refine settling_bind hfirst fun one between hbetween _ hone => ?_
  refine settling_bind (hsecond hbetween) fun two after hafter hsettles htwo => ?_
  refine settling_pure hafter ?_
  rw [hown]
  exact List.forall_mem_append.mpr
    ⟨fun element helement => (hone element helement).spreads hsettles.1, htwo⟩

theorem three_mind {combine : α → β → γ → δ}
    (hfirst : Minds ownFirst schema clean id before first)
    (hsecond : ∀ {between : Context}, between.Restricting schema clean id →
      Minds ownSecond schema clean id between second)
    (hthird : ∀ {between : Context}, between.Restricting schema clean id →
      Minds ownThird schema clean id between third)
    (hown : ∀ one two three,
      own (combine one two three) = ownFirst one ++ ownSecond two ++ ownThird three) :
    Minds own schema clean id before (do
      let one ← first
      let two ← second
      let three ← third
      return combine one two three) := by
  refine settling_bind hfirst fun one between hbetween _ hone => ?_
  refine settling_bind (hsecond hbetween) fun two after hafter hsettles htwo => ?_
  refine settling_bind (hthird hafter) fun three last hlast hlater hthree => ?_
  refine settling_pure hlast ?_
  rw [hown]
  refine List.forall_mem_append.mpr ⟨List.forall_mem_append.mpr ⟨?_, ?_⟩, hthree⟩
  · exact fun element helement => ((hone element helement).spreads hsettles.1).spreads hlater.1
  · exact fun element helement => (htwo element helement).spreads hlater.1

end

/-! ## Elements -/

/-- The check lets elements of the space of the join and of outer levels pass. -/
theorem checkReach_near (hbefore : before.Restricting schema clean id) {element : FromElement}
    (hreaches : before.Reaches element) {Q : Unit → Context → Prop}
    (h : before.levels.Near id element → Q () before) :
    Ends schema before (checkReach element) Q := by
  refine ends_get_bind ?_
  rw [hbefore.resolver]
  dsimp only
  split
  · exact ends_throw _
  rename_i hpasses
  refine ends_pure (h fun place space hopened hid => ?_)
  obtain ⟨found, hfound⟩ := Option.isSome_iff_exists.mp
    (Levels.spaceOf?_isSome hreaches.2.unwrapped_mem)
  have hspace : before.spaceOf? element = some found := hfound
  obtain ⟨place', space', hopened', rfl, -⟩ := Levels.spaceOf?_some hfound
  have hmem := (spaceOf?_fits hbefore.sound hreaches hspace hopened' rfl).2
  by_cases hsame : place'.id = id
  · obtain ⟨rfl, rfl⟩ := Place.fill_inj (hopened'.symm.trans hopened) (hsame.trans hid.symm)
    exact List.mem_append_left _ hmem
  · have hcurrent := place_above hopened (by rw [hid]; exact hbefore.current)
    refine List.mem_append_right _ (Levels.mem_below (hopened'.symm.trans hopened) hcurrent ?_ hmem)
    rw [hid]
    intro hlevel
    simp [hspace, hlevel, hsame] at hpasses

/-- An implicit join is remembered with its source, whether it was made before or just now. -/
theorem attributeJoin_remembers {request : JoinRequest} (himplicit : request.implicit = true) :
    Ends schema before (attributeJoin request) fun element after =>
      ∃ known ∈ after.implicitJoins, known.source = request.source.uid
        ∧ known.join = element.uid := by
  have hstays : Stays schema True before (joinableAttribute request) :=
    joinableAttribute_stays request
  refine ends_bind hstays.ends ?_
  rintro declared _ rfl
  rw [if_pos himplicit]
  refine ends_get_bind ?_
  split
  · rename_i join hjoin
    obtain ⟨known, hknown, hfind⟩ := Option.bind_eq_some_iff.mp hjoin
    have hkey := List.find?_some hknown
    simp only [Bool.and_eq_true, beq_iff_eq] at hkey
    have huid := List.find?_some hfind
    exact ends_pure ⟨known, List.mem_of_find?_eq_some hknown, hkey.1, (eq_of_beq huid).symm⟩
  · rw [newAttributeJoin_eq]
    refine ends_bind (ends_attributeType (Q := fun _ _ => True) fun _ _ => trivial) ?_
    intro type between _
    dsimp only
    split
    · exact ends_throw_bind _ _
    refine ends_bind (ends_newBinding (Q := fun _ _ => True) fun _ _ _ => trivial) ?_
    intro binding drawn _
    have hnoted : (noteJoin request declared binding.uid drawn).implicitJoins
        = ⟨request.source.uid, declared.name, binding.uid⟩ :: drawn.implicitJoins := by
      simp [noteJoin, himplicit]
    refine ends_modify_bind (ends_bind (ends_place (Q := fun _ after =>
      ∃ known ∈ after.implicitJoins, known.source = request.source.uid
        ∧ known.join = binding.uid) ?_) fun _ _ hknown => ends_pure hknown)
    intro _ _ _ _ _ _ _ _
    exact ⟨_, hnoted ▸ List.mem_cons_self, rfl, rfl⟩

theorem joinBeside_remembers (source : FromElement) (declared? : Option Attribute)
    (place : String) :
    Ends schema before (joinBeside source declared? place) fun element after =>
      ∃ known ∈ after.implicitJoins, known.source = source.uid ∧ known.join = element.uid := by
  refine ends_get_bind ?_
  dsimp only
  split
  · exact ends_throw_bind _ _
  split
  · exact ends_throw _
  · exact attributeJoin_remembers rfl

theorem implicitJoin_remembers (source : FromElement) (name place : String) (last : Bool) :
    Ends schema before (implicitJoin source name place last) fun element after =>
      ∃ known ∈ after.implicitJoins, known.source = source.uid ∧ known.join = element.uid := by
  unfold implicitJoin
  dsimp only
  split
  · refine ends_bind (ends_attributeType (Q := fun _ _ => True) fun _ _ => trivial) ?_
    intro type between _
    refine ends_bind (ends_ofExcept (Q := fun _ _ => True) fun _ _ => trivial) ?_
    exact fun _ after _ => joinBeside_remembers source _ place
  · exact joinBeside_remembers source _ place

/-- An implicit join is near where its source is, since it stands in the space of its source. -/
theorem implicitJoin_nears (hbefore : before.Restricting schema clean id) {source : FromElement}
    (hsource : before.Reaches source) (hnear : before.levels.Near id source)
    (name place : String) (last : Bool) :
    Nears schema clean id before (implicitJoin source name place last) := by
  have hremembers : Ends schema before (implicitJoin source name place last) fun element after =>
      after.Sound schema clean ∧ before.registered ⊆ after.registered ∧ after.Reaches element
        ∧ ∃ known ∈ after.implicitJoins, known.source = source.uid ∧ known.join = element.uid := by
    intro element after hrun
    obtain ⟨hadvances, hreaches⟩ :=
      implicitJoin_finds hbefore.sound hsource name place last element after hrun
    exact ⟨hadvances.sound, hadvances.registered, hreaches,
      implicitJoin_remembers source name place last element after hrun⟩
  refine settling_of hbefore hremembers
    (implicitJoin_moves (settleMotion schema fun _ => True) source name place last) ?_
  rintro element after hafter hsettles ⟨hregistered, hreaches, known, hknown, hkey, huid⟩
  refine ⟨hreaches, fun at_ space hopened hid => ?_⟩
  have hjoined := hafter.sound.joined known hknown source
    (hregistered hsource.1) element hreaches.1 hkey.symm huid.symm
  rcases List.mem_append.mp (hnear.spreads hsettles.1 at_ space hopened hid) with hmem | hmem
  · refine List.mem_append_left _ (hjoined space ?_ hmem)
    rw [hopened]
    exact Place.mem_fill.mpr (.inl rfl)
  · rw [Levels.elements_eq_flatMap] at hmem ⊢
    obtain ⟨other, hother, hheld⟩ := List.mem_flatMap.mp hmem
    refine List.mem_append_right _ (List.mem_flatMap.mpr ⟨other, hother, hjoined other ?_ hheld⟩)
    rw [hopened]
    exact Place.mem_fill.mpr (.inr (List.mem_append_right _ hother))

theorem joinAlong_nears (hbefore : before.Restricting schema clean id) {source : FromElement}
    (hsource : before.Reaches source) (hnear : before.levels.Near id source) (place : String)
    (names : List String) : Nears schema clean id before (joinAlong source place names) := by
  induction names generalizing before source place with
  | nil => exact settling_pure hbefore ⟨hsource, hnear⟩
  | cons name names ih =>
    exact settling_bind (implicitJoin_nears hbefore hsource hnear name _ _)
      fun element between hbetween _ ⟨hreaches, hnext⟩ => ih hbetween hreaches hnext _

theorem joinThrough_nears (hbefore : before.Restricting schema clean id) {source : FromElement}
    (hsource : before.Reaches source) (hnear : before.levels.Near id source)
    (names : List String) : Nears schema clean id before (joinThrough source names) := by
  induction names generalizing before source with
  | nil => exact settling_pure hbefore ⟨hsource, hnear⟩
  | cons name names ih =>
    exact settling_bind (implicitJoin_nears hbefore hsource hnear name _ _)
      fun element between hbetween _ ⟨hreaches, hnext⟩ => ih hbetween hreaches hnext

theorem fromElementPath_nears (hbefore : before.Restricting schema clean id) (path : DottedName) :
    Nears schema clean id before (fromElementPath path) := by
  unfold fromElementPath fromElementParts
  split
  · exact ends_throw _
  · refine ends_get_bind ?_
    split
    · exact ends_throw _
    · rename_i element helement
      have hreaches := element?_reaches hbefore.sound helement
      refine ends_bind (checkReach_near (Q := fun _ after => before = after
        ∧ before.levels.Near id element) hbefore hreaches fun hnear => ⟨rfl, hnear⟩) ?_
      rintro _ _ ⟨rfl, hnear⟩
      exact joinAlong_nears hbefore hreaches hnear _ _

/-- A narrowed element is near where the element that it narrows is. -/
theorem treat_nears (hbefore : before.Restricting schema clean id) {element : FromElement}
    (helement : before.Reaches element) (hnear : before.levels.Near id element)
    (target : DottedName) : Nears schema clean id before (treat element target) := by
  have hform : Ends schema before (treat element target) fun narrowed _ =>
      narrowed.unwrapped = element.unwrapped := by
    unfold treat
    refine ends_bind (ends_treatTarget (Q := fun _ _ => True) fun _ _ => trivial) ?_
    intro entity _ _
    have hnarrow : ∀ context : Context, Ends schema context (do
        modify fun context => context.narrow element.uid entity
        let uid ← drawUid
        modify fun context => context.register
          (.treated ⟨uid, element.aliasName, element.binding.generated, entity.type⟩ element)
        return FromElement.treated
          ⟨uid, element.aliasName, element.binding.generated, entity.type⟩ element)
        fun narrowed _ => narrowed.unwrapped = element.unwrapped := by
      intro context
      refine ends_modify_bind (ends_bind (ends_drawUid (Q := fun _ _ => True) trivial) ?_)
      exact fun _ _ _ => ends_modify_bind (ends_pure rfl)
    dsimp only
    split
    · split
      · exact ends_throw_bind _ _
      · exact hnarrow _
    · exact hnarrow _
  have hends : Ends schema before (treat element target) fun narrowed after =>
      after.Sound schema clean ∧ after.Reaches narrowed
        ∧ narrowed.unwrapped = element.unwrapped := by
    intro narrowed after hrun
    obtain ⟨hadvances, hreaches⟩ := treat_finds hbefore.sound helement target narrowed after hrun
    exact ⟨hadvances.sound, hreaches, hform narrowed after hrun⟩
  refine settling_of hbefore hends
    (treat_moves (settleMotion schema fun _ => True) element trivial) ?_
  rintro narrowed after - hsettles ⟨hreaches, hsame⟩
  refine ⟨hreaches, fun place space hopened hid => ?_⟩
  rw [hsame]
  exact hnear.spreads hsettles.1 place space hopened hid

/-! ## Attributes -/

theorem attributeReference_source (source : PathSource) (type : TypeDescriptor) (name : String)
    (path : DottedName) : Ends schema before (attributeReference source type name path)
      fun attained after => before = after ∧ attained.ownElements = source.ownElements := by
  unfold attributeReference
  split
  · exact ends_throw _
  · refine ends_bind (ends_attributeType (Q := fun _ after => before = after) fun _ _ => rfl) ?_
    rintro found _ rfl
    exact ends_pure ⟨rfl, rfl⟩

theorem attributes_source (path : DottedName) (source : PathSource) (type : TypeDescriptor)
    (names : List String) : Ends schema before (attributes path source type names)
      fun reached after => before = after ∧ reached.1.ownElements = source.ownElements := by
  induction names generalizing source type with
  | nil => exact ends_pure ⟨rfl, rfl⟩
  | cons name names ih =>
    refine ends_bind (attributeReference_source source type name path) ?_
    rintro attained _ ⟨rfl, hattained⟩
    refine ends_bind (ends_ofExcept (Q := fun _ after => before = after) fun _ _ => rfl) ?_
    rintro _ _ rfl
    refine ends_mono (ih (.reference attained) attained.type) ?_
    rintro reached after ⟨hsame, hreached⟩
    exact ⟨hsame, hreached.trans hattained⟩

/-! ## Expressions -/

theorem navigate_minds (hbefore : before.Restricting schema clean id) {element : FromElement}
    (helement : before.Reaches element) (names : List String) (path : DottedName) :
    Minds Expression.ownElements schema clean id before (navigate element names path) := by
  unfold navigate
  refine ends_bind (checkReach_near (Q := fun _ after => before = after
    ∧ before.levels.Near id element) hbefore helement fun hnear => ⟨rfl, hnear⟩) ?_
  rintro _ _ ⟨rfl, hnear⟩
  split
  · exact settling_pure hbefore (List.forall_mem_singleton.mpr hnear)
  · rename_i last _
    refine ends_get_bind ?_
    rw [hbefore.resolver, if_neg (by simp)]
    refine settling_bind (joinThrough_nears hbefore helement hnear _) ?_
    rintro source between hbetween - ⟨-, hsource⟩
    refine ends_bind (attributeReference_source (.element source) _ last path) ?_
    rintro attained _ ⟨rfl, hattained⟩
    refine settling_pure hbetween ?_
    change ∀ mentioned ∈ attained.ownElements, between.levels.Near id mentioned
    rw [hattained]
    exact List.forall_mem_singleton.mpr hsource

theorem path_minds (hbefore : before.Restricting schema clean id) (dotted : DottedName) :
    Minds Expression.ownElements schema clean id before (path dotted) := by
  have hnone : ∀ value : Expression, value.ownElements = [] →
      Minds Expression.ownElements schema clean id before (pure value) := by
    intro value hvalue
    refine settling_pure hbefore ?_
    rw [hvalue]
    exact fun _ h => by cases h
  unfold path
  split
  · exact ends_throw _
  refine ends_get_bind (ends_read_bind ?_)
  split
  · rename_i element helement
    exact navigate_minds hbefore (element?_reaches hbefore.sound helement) _ _
  split
  · exact hnone _ rfl
  split
  · rename_i constant hconstant
    obtain ⟨owner, member, type, rfl⟩ := constant?_form hconstant
    exact hnone _ rfl
  refine ends_bind (ends_ofExcept (Q := fun found after => before = after
    ∧ ∀ element, found = some element → before.Reaches element) ?_) ?_
  · intro found hfound
    refine ⟨rfl, fun element helement => ?_⟩
    subst helement
    obtain ⟨frame, hframe, hmem⟩ := bareOwner_mem hfound
    exact hbefore.sound.bound element (Trail.frames_subset frame hframe hmem)
  rintro found _ ⟨rfl, hfound⟩
  split
  · exact navigate_minds hbefore (hfound _ rfl) _ _
  · exact ends_throw _

theorem literal_minds (hbefore : before.Restricting schema clean id) (token : Phrase.Literal) :
    Minds Expression.ownElements schema clean id before (literal token) := by
  unfold literal
  split
  · exact settling_pure hbefore fun _ h => by cases h
  · exact ends_throw _

theorem parameter_minds (hbefore : before.Restricting schema clean id)
    (written : Phrase.Parameter) :
    Minds Expression.ownElements schema clean id before (parameter written) := by
  have hform : Ends schema before (parameter written) fun value _ => value = .parameter written :=
    ends_bind (ends_change (Q := fun _ _ => True) fun _ _ => trivial) fun _ _ _ => ends_pure rfl
  refine settling_of hbefore
    (fun value after hrun => ⟨(parameter_builds hbefore.sound written value after hrun).1.sound,
      hform value after hrun⟩) (parameter_moves (settleMotion schema fun _ => True) written) ?_
  rintro value after - - rfl
  exact fun _ h => by cases h

theorem pathOrCall_minds (hbefore : before.Restricting schema clean id) (dotted : DottedName) :
    Minds Expression.ownElements schema clean id before (pathOrCall dotted) := by
  refine ends_get_bind ?_
  split
  · exact settling_pure hbefore fun _ h => by cases h
  · exact path_minds hbefore dotted

/-- What attributes of an indexed element lead to mentions what the element does. -/
theorem navigateIndexed_source (indexed : IndexedReference) (path : DottedName) :
    Ends schema before (navigateIndexed indexed path) fun value after =>
      after = before ∧ value.ownElements = indexed.ownElements := by
  unfold navigateIndexed
  split
  · exact ends_pure ⟨rfl, rfl⟩
  · refine ends_bind (attributes_source _ _ _ _) ?_
    rintro ⟨source, found⟩ _ ⟨rfl, hsource⟩
    refine ends_bind (attributeReference_source source found _ _) ?_
    rintro attained _ ⟨rfl, hattained⟩
    exact ends_pure ⟨rfl, hattained.trans hsource⟩

theorem indexed_minds (hbefore : before.Restricting schema clean id) {index : Expression}
    (hindex : ∀ element ∈ index.ownElements, before.levels.Near id element) (base : DottedName)
    (remainder : Option DottedName) :
    Minds Expression.ownElements schema clean id before (indexed base index remainder) := by
  refine settling_bind (path_minds hbefore base) ?_
  intro value between hbetween hsettles hvalue
  split
  · rename_i collection
    split
    · rename_i type _ _
      have hown : ∀ element ∈ (IndexedReference.mk collection index type).ownElements,
          between.levels.Near id element := by
        refine List.forall_mem_append.mpr ⟨hvalue, fun element helement => ?_⟩
        exact (hindex element helement).spreads hsettles.1
      dsimp only
      split
      · exact settling_pure hbetween hown
      · refine ends_under (ends_mono (navigateIndexed_source _ _) ?_)
        rintro value _ ⟨rfl, hvalue⟩
        rw [← hvalue] at hown
        exact ⟨hbetween, ⟨.refl _, rfl⟩, hown⟩
    · exact ends_throw _
  · exact ends_throw _

theorem treated_minds (hbefore : before.Restricting schema clean id) (base target : DottedName)
    (remainder : Option DottedName) :
    Minds Expression.ownElements schema clean id before (treated base target remainder) := by
  refine settling_bind (fromElementPath_nears hbefore base) ?_
  rintro element between hbetween - ⟨hreaches, hnear⟩
  refine settling_bind (treat_nears hbetween hreaches hnear target) ?_
  rintro narrowed after hafter - ⟨hnarrowed, hnext⟩
  split
  · exact settling_pure hafter (List.forall_mem_singleton.mpr hnext)
  · exact navigate_minds hafter hnarrowed _ _

theorem mapEntry_minds (hbefore : before.Restricting schema clean id) (function : MapFunction)
    (argument : DottedName) :
    Minds Expression.ownElements schema clean id before (mapEntry function argument) := by
  refine settling_bind (fromElementPath_nears hbefore argument) ?_
  rintro join between hbetween - ⟨-, hnear⟩
  have hjoin := List.forall_mem_singleton.mpr hnear
  split
  · exact settling_pure hbetween hjoin
  · refine ends_bind (ends_comply (Q := fun _ after => between = after) rfl) ?_
    rintro _ _ rfl
    exact settling_pure hbetween hjoin
  · exact settling_pure hbetween hjoin
  · exact settling_pure hbetween hjoin
  · exact ends_throw _

theorem indexOfJoin_minds (hbefore : before.Restricting schema clean id)
    (argument : Phrase.Expression) :
    Minds Expression.ownElements schema clean id before (indexOfJoin argument) := by
  unfold indexOfJoin
  split
  · refine settling_bind (fromElementPath_nears hbefore _) ?_
    rintro join between hbetween - ⟨-, hnear⟩
    split
    · exact settling_pure hbetween (List.forall_mem_singleton.mpr hnear)
    · exact ends_throw _
  · exact ends_throw _

/-- A function of a collection mentions what its argument does. -/
theorem collectionFunction_minds (hbefore : before.Restricting schema clean id)
    {argument : Expression}
    (hargument : ∀ element ∈ argument.ownElements, before.levels.Near id element)
    (function : CollectionFunction) :
    Minds Expression.ownElements schema clean id before (collectionFunction function argument) := by
  unfold collectionFunction
  split
  · split
    · refine ends_bind (ends_ofExcept (Q := fun _ after => before = after) fun _ _ => rfl) ?_
      rintro type? _ rfl
      exact settling_pure hbefore hargument
    · exact ends_throw _
  · exact ends_throw _

end Step
end EntityQuery.Interpretation

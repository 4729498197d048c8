import EntityQuery.Interpretation.Joining
import EntityQuery.Proofs.BuiltTree
import EntityQuery.Proofs.OpenLevels
import EntityQuery.Proofs.TrailFrames

/-!
# Sound states

What holds of the state of an interpretation between any two steps. The registered elements are
told apart by their numbers and come with all that they were reached by; what the open scopes and
from clauses hold is registered and within reach; an implicit join stands in the space of its
source; restrictions of joins keep to their space and to outer levels.

* `Context.Sound`: the invariant.
* `Context.Sound.relevel`: it is kept when what it says of the open levels and of the trail is.
* `Context.Extends`, `Context.Advances`: how a step changes a sound state, with what it binds.
* `Context.Extends.trans`, `Context.Advances.trans`: two steps after each other.
-/

namespace EntityQuery

namespace Narrowings

theorem of_head?_mono {marks more : Narrowings} (h : marks <+: more) {uid : Nat}
    {target : EntityReference} (hhead : (marks.of uid).head? = some target) :
    (more.of uid).head? = some target := by
  obtain ⟨rest, rfl⟩ := h
  rw [of_append, List.head?_append, hhead]
  rfl

theorem prefix_add (marks : Narrowings) (uid : Nat) (target : EntityReference) :
    marks <+: marks.add uid target := by
  unfold add
  split
  · exact List.prefix_refl _
  · exact List.prefix_append _ _

theorem mem_add {marks : Narrowings} {uid : Nat} {target : EntityReference} {mark : Narrowing}
    (h : mark ∈ marks.add uid target) : mark ∈ marks ∨ mark.uid = uid := by
  unfold add at h
  split at h
  · exact .inl h
  · rcases List.mem_append.mp h with h | h
    · exact .inl h
    · rw [List.mem_singleton.mp h]
      exact .inr rfl

/-- The first mark of an element that had none is the one that it is given. -/
theorem of_add_head? {marks : Narrowings} {uid : Nat} (h : ∀ mark ∈ marks, mark.uid ≠ uid)
    (target : EntityReference) : ((marks.add uid target).of uid).head? = some target := by
  have hnone : marks.of uid = [] := by
    refine List.filterMap_eq_nil_iff.mpr fun mark hmark => ?_
    simp [h mark hmark]
  simp [add, hnone, of_append, of_cons_self]

end Narrowings

namespace FromElement

/-- The element comes after what it starts from or narrows. -/
def Ordered : FromElement → Prop
  | attributeJoin binding source _ => source.uid < binding.uid
  | treated binding wrapped => wrapped.uid < binding.uid
  | _ => True

/-- A join leads through an attribute that its source declares and that is not basic. Its values are
narrowed to its first mark where it was written so, else they are the elements of the attribute,
else the attribute itself. -/
def JoinTyped (schema : Schema) (marks : Narrowings) : FromElement → Prop
  | attributeJoin binding source join =>
    source.type.declared? join.declared.name = some join.declared
      ∧ schema.resolve? join.declared.type = some join.type
      ∧ join.type.isBasic = false
      ∧ ∃ narrowed?, binding.type = Interpretation.joinedType narrowed? join.type
        ∧ (∀ target, narrowed? = some target → (marks.of binding.uid).head? = some target)
        ∧ (join.implicit = true → narrowed? = none)
  | _ => True

theorem JoinTyped.mono {schema : Schema} {marks more : Narrowings} (hmore : marks <+: more) :
    ∀ {element : FromElement}, element.JoinTyped schema marks → element.JoinTyped schema more
  | attributeJoin _ _ _, ⟨hdeclared, htype, hbasic, narrowed?, hbound, hmark, himplicit⟩ =>
    ⟨hdeclared, htype, hbasic, narrowed?, hbound,
      fun target htarget => Narrowings.of_head?_mono hmore (hmark target htarget), himplicit⟩
  | root _, _ => trivial
  | crossJoin _, _ => trivial
  | entityJoin _ _, _ => trivial
  | treated _ _, _ => trivial

/-- The variable is a made-up one that was drawn, or a written one that looks like none of these. -/
def Named (nextAlias : Nat) (element : FromElement) : Prop :=
  (element.binding.generated = true →
      ∃ number < nextAlias, element.aliasName = Interpretation.Context.generatedAlias number)
    ∧ (element.binding.generated = false →
      ∀ number, element.aliasName ≠ Interpretation.Context.generatedAlias number)

theorem Named.mono {next later : Nat} (hle : next ≤ later) {element : FromElement}
    (h : element.Named next) : element.Named later := by
  refine ⟨fun hgenerated => ?_, h.2⟩
  obtain ⟨number, hlt, halias⟩ := h.1 hgenerated
  exact ⟨number, Nat.lt_of_lt_of_le hlt hle, halias⟩

end FromElement

namespace Interpretation

open Resolved (builtRules builtRules_implies)

/-- The written variables of a from clause are bound in the scope of that clause. -/
def Levels.Framed : Levels → List (List FromElement) → Prop
  | [], _ => True
  | spaces :: below, frame :: outer =>
    (∀ element ∈ clauseElements spaces, element.binding.generated = false → element ∈ frame)
      ∧ Framed below outer
  | _ :: _, [] => False

namespace Context

/-- The elements that are in scope. -/
def scope (context : Context) : List FromElement := context.levels.elements

/-- The rules of what was built in a state. -/
def rules (schema : Schema) (clean : Prop) (context : Context) : Resolved.Rules :=
  builtRules schema clean context.registered

theorem generatedAlias_injective {number other : Nat}
    (h : generatedAlias number = generatedAlias other) : number = other := by
  have htext : number.repr = other.repr := by
    simpa [generatedAlias, String.append_right_inj, String.append_left_inj] using h
  have hdigits := congrArg String.toList htext
  rw [Nat.toList_repr, Nat.toList_repr] at hdigits
  rw [← Nat.ofDigitChars_toDigits (b := 10) (n := number) (by decide) (by decide), hdigits,
    Nat.ofDigitChars_toDigits (by decide) (by decide)]

/-- The element may be mentioned. -/
def Reaches (context : Context) (element : FromElement) : Prop :=
  element ∈ context.registered ∧ element.Within context.scope

/-- What holds between any two steps. What is said of variables depends on `clean`: that no written
variable looks like a made-up one. -/
structure Sound (schema : Schema) (clean : Prop) (context : Context) : Prop where
  /-- What an element was reached by is registered with it. -/
  closed : ∀ element ∈ context.registered, element.chain ⊆ context.registered
  fresh : ∀ element ∈ context.registered, element.uid < context.nextUid
  unique : ∀ element ∈ context.registered, ∀ other ∈ context.registered,
    element.uid = other.uid → element = other
  ordered : ∀ element ∈ context.registered, element.Ordered
  typed : ∀ element ∈ context.registered, element.JoinTyped schema context.narrowings
  marked : ∀ mark ∈ context.narrowings, mark.uid < context.nextUid
  named : clean → ∀ element ∈ context.registered, element.Named context.nextAlias
  bound : ∀ element ∈ context.trail.elements, context.Reaches element
  fit : context.levels.Fit (context.rules schema clean)
  /-- No element stands in two places. -/
  placed : (context.levels.elements.map FromElement.uid).Nodup
  framed : context.levels.Framed context.trail.frames
  distinct : clean → ∀ spaces ∈ context.levels,
    ((clauseElements spaces).map FromElement.aliasName).Nodup
  known : ∀ known ∈ context.implicitJoins, known.source < context.nextUid
    ∧ known.join < context.nextUid
  /-- An implicit join stands in the space of its source. -/
  joined : ∀ known ∈ context.implicitJoins, ∀ source ∈ context.registered,
    ∀ join ∈ context.registered, source.uid = known.source → join.uid = known.join →
      ∀ space ∈ context.levels.flatten, source.unwrapped ∈ space.elements →
        join.unwrapped ∈ space.elements
  secluded : context.levels.Secluded
  recalls : Recalls context.registered context.implicitJoins
  madeUp : ∀ element ∈ context.registered, element.isDeclared = false →
    ∃ number, element.aliasName = generatedAlias number
  trailing : ∀ space ∈ context.levels.flatten, FromElement.Trailing space.elements

/-- What a sound state says of the open levels and of the trail. -/
structure Levelled (schema : Schema) (clean : Prop) (context : Context) : Prop where
  bound : ∀ element ∈ context.trail.elements, context.Reaches element
  fit : context.levels.Fit (context.rules schema clean)
  placed : (context.levels.elements.map FromElement.uid).Nodup
  framed : context.levels.Framed context.trail.frames
  distinct : clean → ∀ spaces ∈ context.levels,
    ((clauseElements spaces).map FromElement.aliasName).Nodup
  joined : ∀ known ∈ context.implicitJoins, ∀ source ∈ context.registered,
    ∀ join ∈ context.registered, source.uid = known.source → join.uid = known.join →
      ∀ space ∈ context.levels.flatten, source.unwrapped ∈ space.elements →
        join.unwrapped ∈ space.elements
  secluded : context.levels.Secluded
  trailing : ∀ space ∈ context.levels.flatten, FromElement.Trailing space.elements

namespace Sound

variable {schema : Schema} {clean : Prop} {context : Context}

theorem levelled (h : context.Sound schema clean) : context.Levelled schema clean :=
  { h with }

/-- Resolvers, the style of parameters and advisories do not matter, and the open levels and the
trail matter only in a part of what is sound. -/
theorem relevel (h : context.Sound schema clean) {resolvers : List Resolver}
    {style? : Option ParameterStyle} {advisories : List Report.Advisory} {levels : Levels}
    {trail : Trail}
    (hlevelled : Levelled schema clean
      { context with resolvers, style?, advisories, levels, trail }) :
    Sound schema clean { context with resolvers, style?, advisories, levels, trail } :=
  { hlevelled with
    closed := h.closed
    fresh := h.fresh
    unique := h.unique
    ordered := h.ordered
    typed := h.typed
    marked := h.marked
    named := h.named
    known := h.known
    recalls := h.recalls
    madeUp := h.madeUp }

/-! An element that is registered under the next number. -/

variable {element : FromElement}

theorem uid_ne (h : context.Sound schema clean) (huid : element.uid = context.nextUid)
    {other : FromElement} (hother : other ∈ context.registered) : other.uid ≠ element.uid := by
  have hfresh := h.fresh other hother
  omega

theorem fresh_cons (h : context.Sound schema clean) (huid : element.uid = context.nextUid) :
    ∀ other ∈ element :: context.registered, other.uid < context.nextUid + 1 := by
  refine List.forall_mem_cons.mpr ⟨by omega, fun other hother => ?_⟩
  exact Nat.lt_succ_of_lt (h.fresh other hother)

theorem unique_cons (h : context.Sound schema clean) (huid : element.uid = context.nextUid) :
    ∀ one ∈ element :: context.registered, ∀ other ∈ element :: context.registered,
      one.uid = other.uid → one = other := by
  intro one hone other hother heq
  rcases List.mem_cons.mp hone with rfl | hold
  · rcases List.mem_cons.mp hother with rfl | hother
    · rfl
    · exact absurd heq.symm (h.uid_ne huid hother)
  · rcases List.mem_cons.mp hother with rfl | hother
    · exact absurd heq (h.uid_ne huid hold)
    · exact h.unique one hold other hother heq

theorem known_succ (h : context.Sound schema clean) : ∀ known ∈ context.implicitJoins,
    known.source < context.nextUid + 1 ∧ known.join < context.nextUid + 1 := by
  intro known hknown
  obtain ⟨hsource, hjoin⟩ := h.known known hknown
  exact ⟨Nat.lt_succ_of_lt hsource, Nat.lt_succ_of_lt hjoin⟩

/-- A join that was remembered is not the new element, nor does it start from it. -/
theorem registered_of_known (h : context.Sound schema clean)
    (huid : element.uid = context.nextUid) {known : KnownJoin}
    (hknown : known ∈ context.implicitJoins) {other : FromElement}
    (hother : other ∈ element :: context.registered)
    (hsame : other.uid = known.source ∨ other.uid = known.join) :
    other ∈ context.registered := by
  obtain ⟨hsource, hjoin⟩ := h.known known hknown
  rcases List.mem_cons.mp hother with rfl | hother
  · omega
  · exact hother

end Sound

/-! ## Changes -/

/-- The elements that a tree binds were bound in open spaces before, or are new; none is bound
twice. -/
def Accounts (before after : Context) (bound : List FromElement) : Prop :=
  ∀ uid, (after.levels.boundElements.map FromElement.uid).count uid
      + (bound.map FromElement.uid).count uid
    ≤ (before.levels.boundElements.map FromElement.uid).count uid
      + if before.nextUid ≤ uid ∧ uid < after.nextUid then 1 else 0

/-- How a step on a level changes a state; `bound` are the elements that its result binds. -/
structure Extends (schema : Schema) (clean : Prop) (before : Context) (bound : List FromElement)
    (after : Context) : Prop where
  sound : after.Sound schema clean
  uids : before.nextUid ≤ after.nextUid
  registered : before.registered ⊆ after.registered
  grow : before.levels.Grow after.levels
  marks : ∃ marks : List Mark, after.trail = marks ++ before.trail
    ∧ ∀ mark ∈ marks, mark.isOpened = false
  outerRoots : after.levels.roots.tail = before.levels.roots.tail
  accounts : before.Accounts after bound

/-- How a step that opens no space and selects nothing changes a state. -/
structure Advances (schema : Schema) (clean : Prop) (before : Context) (bound : List FromElement)
    (after : Context) : Prop extends Extends schema clean before bound after where
  elementMarks : ∃ marks : List Mark, after.trail = marks ++ before.trail
    ∧ ∀ mark ∈ marks, mark.isElement = true
  roots : after.levels.roots = before.levels.roots

variable {schema : Schema} {clean : Prop} {before between after : Context}
  {bound more : List FromElement}

theorem Accounts.trans (h : before.Accounts between bound) (h' : between.Accounts after more)
    (huids : before.nextUid ≤ between.nextUid) (huids' : between.nextUid ≤ after.nextUid) :
    before.Accounts after (bound ++ more) := by
  intro uid
  have hfirst := h uid
  have hsecond := h' uid
  rw [List.map_append, List.count_append]
  split at hfirst <;> split at hsecond <;> split <;> omega

/-- Fewer elements are accounted for as well. -/
theorem Accounts.of_le {fewer : List FromElement} (h : before.Accounts after bound)
    (hle : ∀ uid, (fewer.map FromElement.uid).count uid ≤ (bound.map FromElement.uid).count uid) :
    before.Accounts after fewer := by
  intro uid
  have hbound := h uid
  have hfewer := hle uid
  omega

namespace Extends

theorem refl (h : before.Sound schema clean) : before.Extends schema clean [] before where
  sound := h
  uids := Nat.le_refl _
  registered := fun _ h => h
  grow := Levels.Grow.refl _
  marks := ⟨[], rfl, fun _ h => by cases h⟩
  outerRoots := rfl
  accounts := by
    intro uid
    simp

theorem trans (h : before.Extends schema clean bound between)
    (h' : between.Extends schema clean more after) :
    before.Extends schema clean (bound ++ more) after where
  sound := h'.sound
  uids := Nat.le_trans h.uids h'.uids
  registered := List.Subset.trans h.registered h'.registered
  grow := h.grow.trans h'.grow
  marks := by
    obtain ⟨marks, htrail, hmarks⟩ := h.marks
    obtain ⟨newer, htrail', hnewer⟩ := h'.marks
    refine ⟨newer ++ marks, by rw [htrail', htrail, List.append_assoc], fun mark hmark => ?_⟩
    rcases List.mem_append.mp hmark with hmark | hmark
    · exact hnewer mark hmark
    · exact hmarks mark hmark
  outerRoots := h'.outerRoots.trans h.outerRoots
  accounts := h.accounts.trans h'.accounts h.uids h'.uids

theorem rules (h : before.Extends schema clean bound after) :
    (before.rules schema clean).Implies (after.rules schema clean) :=
  builtRules_implies h.registered

theorem scope (h : before.Extends schema clean bound after) : before.scope ⊆ after.scope :=
  h.grow.elements

theorem reaches (h : before.Extends schema clean bound after) {element : FromElement}
    (helement : before.Reaches element) : after.Reaches element :=
  ⟨h.registered helement.1, helement.2.mono h.scope⟩

end Extends

namespace Advances

theorem refl (h : before.Sound schema clean) : before.Advances schema clean [] before where
  toExtends := Extends.refl h
  elementMarks := ⟨[], rfl, fun _ h => by cases h⟩
  roots := rfl

theorem trans (h : before.Advances schema clean bound between)
    (h' : between.Advances schema clean more after) :
    before.Advances schema clean (bound ++ more) after where
  toExtends := h.toExtends.trans h'.toExtends
  elementMarks := by
    obtain ⟨marks, htrail, hmarks⟩ := h.elementMarks
    obtain ⟨newer, htrail', hnewer⟩ := h'.elementMarks
    refine ⟨newer ++ marks, by rw [htrail', htrail, List.append_assoc], fun mark hmark => ?_⟩
    rcases List.mem_append.mp hmark with hmark | hmark
    · exact hnewer mark hmark
    · exact hmarks mark hmark
  roots := h'.roots.trans h.roots

/-- Such a step leaves the result variables. -/
theorem results (h : before.Advances schema clean bound after) :
    after.trail.results = before.trail.results := by
  obtain ⟨marks, htrail, hmarks⟩ := h.elementMarks
  rw [htrail, Trail.results_append _ hmarks]

end Advances
end Context
end Interpretation
end EntityQuery

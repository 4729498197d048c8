import EntityQuery.Proofs.MovedStatements
import EntityQuery.Proofs.TrailFrames

/-!
# Levels that are left as they were entered

A query opens a scope, a from clause and a resolver, and so does a bulk statement; nested queries,
the restrictions of joins, assignments and indexed elements do so in turn. All of them are taken
back however the query ends. What a query changes in the from clauses around it are the implicit
joins of its paths, each of which is put into the space that its source stands in.

* `OpenSpace.Keeps`, `Levels.Keep`: spaces with their roots and their joins in front.
* `keepingMotion`: what the steps on a level leave of the levels around it.
* `Context.Restored`: the state after a level that was left.
* `Step.query_restored`, `Step.statement_restored`: queries and statements leave every level that
  they open, also where they fail.
-/

namespace EntityQuery.Interpretation

open Resolved (Join)

/-- The join is an implicit one, without a restriction, and its source stands in the space. -/
def OpenSpace.Hosts (space : OpenSpace) (join : Join) : Prop :=
  ∃ binding source via, join = .mk (.attributeJoin binding source via) none
    ∧ via.implicit = true ∧ space.contains source.unwrapped.uid = true

/-- The space has its root and its joins in front, with their restrictions, and behind them only
implicit joins of elements that stand in it. -/
def OpenSpace.Keeps : OpenSpace → OpenSpace → Prop
  | .vacant, after => after = .vacant
  | .rooted root joins, after =>
    ∃ gained, after = .rooted root (joins ++ gained) ∧ ∀ join ∈ gained, after.Hosts join

namespace OpenSpace

theorem Hosts.more {root : FromElement} {joins : List Join} {join : Join}
    (h : (rooted root joins).Hosts join) (gained : List Join) :
    (rooted root (joins ++ gained)).Hosts join := by
  obtain ⟨binding, source, via, rfl, himplicit, hcontains⟩ := h
  refine ⟨binding, source, via, rfl, himplicit, ?_⟩
  obtain ⟨element, hmem, huid⟩ := List.any_eq_true.mp hcontains
  refine List.any_eq_true.mpr ⟨element, ?_, huid⟩
  simp only [elements, List.map_append, ← List.cons_append]
  exact List.mem_append_left _ hmem

theorem Keeps.refl (space : OpenSpace) : space.Keeps space := by
  cases space with
  | vacant => rfl
  | rooted root joins => exact ⟨[], by simp, fun _ h => by cases h⟩

theorem Keeps.trans {space between after : OpenSpace} (h : space.Keeps between)
    (h' : between.Keeps after) : space.Keeps after := by
  cases space with
  | vacant =>
    have hbetween : between = .vacant := h
    subst hbetween
    exact h'
  | rooted root joins =>
    obtain ⟨gained, rfl, hgained⟩ := h
    obtain ⟨more, rfl, hmore⟩ := h'
    refine ⟨gained ++ more, by rw [List.append_assoc], fun join hjoin => ?_⟩
    rcases List.mem_append.mp hjoin with hold | hnew
    · exact (hgained join hold).more more
    · exact hmore join hnew

/-- An implicit join of an element of the space is put at its end. -/
theorem keeps_joined {root : FromElement} {joins : List Join} {binding : Binding}
    {source : FromElement} {via : AttributeJoin} (himplicit : via.implicit = true)
    (hcontains : (rooted root joins).contains source.unwrapped.uid = true) :
    (rooted root joins).Keeps
      (.rooted root (joins ++ [.mk (.attributeJoin binding source via) none])) := by
  refine ⟨_, rfl, fun join hjoin => ?_⟩
  rw [List.mem_singleton.mp hjoin]
  exact Hosts.more ⟨binding, source, via, rfl, himplicit, hcontains⟩ _

end OpenSpace

namespace Levels

/-- As many from clauses with as many spaces each, all of which keep what they hold. -/
def Keep (levels after : Levels) : Prop := List.Forall₂ (List.Forall₂ OpenSpace.Keeps) levels after

theorem Keep.refl (levels : Levels) : levels.Keep levels :=
  List.forall₂_same.mpr fun _ _ => List.forall₂_same.mpr fun space _ => .refl space

theorem Keep.trans {levels between after : Levels} (h : levels.Keep between)
    (h' : between.Keep after) : levels.Keep after :=
  forall₂_trans h h' fun hfirst hsecond => forall₂_trans hfirst hsecond OpenSpace.Keeps.trans

theorem Keep.tail {levels after : Levels} (h : levels.Keep after) :
    Keep levels.tail after.tail := by
  cases h with
  | nil => exact .nil
  | cons _ hrest => exact hrest

theorem Keep.fill {place : Place} {space filled : OpenSpace} (h : space.Keeps filled) :
    (place.fill space).Keep (place.fill filled) := by
  have hsame (spaces : List OpenSpace) : List.Forall₂ OpenSpace.Keeps spaces spaces :=
    List.forall₂_same.mpr fun space _ => .refl space
  have hclause := List.rel_append (hsame place.left) (.cons h (hsame place.right))
  exact List.rel_append (Keep.refl place.above) (.cons hclause (Keep.refl place.below))

/-- The number of from clauses and of the spaces of each is the same. -/
theorem Keep.counts {levels after : Levels} (h : levels.Keep after) :
    after.map List.length = levels.map List.length := by
  induction h with
  | nil => rfl
  | cons hspaces _ ih => rw [List.map_cons, List.map_cons, ih, hspaces.length_eq]

end Levels

/-- Resolvers are as before, only the current scope got bindings, and the from clauses are kept as
far as `kept` says. -/
structure Context.Proceeds (kept : Levels → Levels → Prop) (before after : Context) : Prop where
  resolvers : after.resolvers = before.resolvers
  trail : ∃ marks, after.trail = marks ++ before.trail ∧ ∀ mark ∈ marks, mark.isOpened = false
  levels : kept before.levels after.levels

/-- Scopes with their bindings and result variables and all resolvers are as before, and every open
space keeps what it held. -/
structure Context.Restored (before after : Context) : Prop where
  trail : after.trail = before.trail
  resolvers : after.resolvers = before.resolvers
  levels : before.levels.Keep after.levels

namespace Levels

/-- The from clauses around the innermost one keep what they hold. -/
def KeepBelow (levels after : Levels) : Prop :=
  after.length = levels.length ∧ Keep levels.tail after.tail

theorem KeepBelow.refl (levels : Levels) : levels.KeepBelow levels := ⟨rfl, .refl _⟩

theorem KeepBelow.trans {levels between after : Levels} (h : levels.KeepBelow between)
    (h' : between.KeepBelow after) : levels.KeepBelow after :=
  ⟨h'.1.trans h.1, Keep.trans h.2 h'.2⟩

theorem Keep.below {levels after : Levels} (h : levels.Keep after) : levels.KeepBelow after :=
  ⟨(List.Forall₂.length_eq h).symm, h.tail⟩

theorem keepBelow_openSpace {levels after : Levels} {id : SpaceId}
    (h : levels.openSpace = .ok (id, after)) : levels.KeepBelow after := by
  cases levels with
  | nil => cases h
  | cons spaces below =>
    cases h
    exact ⟨rfl, .refl _⟩

theorem keepBelow_fill {place : Place} (habove : place.above = []) (space filled : OpenSpace) :
    (place.fill space).KeepBelow (place.fill filled) := by
  refine ⟨fill_length filled rfl, ?_⟩
  simp only [Place.fill, habove, List.nil_append, List.tail_cons]
  exact .refl _

end Levels

namespace Context.Proceeds

variable {kept : Levels → Levels → Prop} {before between after : Context}

/-- Where scopes and resolvers are the same, only the from clauses matter. -/
theorem of_levels (hresolvers : after.resolvers = before.resolvers)
    (htrail : after.trail = before.trail) (h : kept before.levels after.levels) :
    Proceeds kept before after :=
  ⟨hresolvers, ⟨[], htrail, fun _ hmark => by cases hmark⟩, h⟩

theorem mono {weaker : Levels → Levels → Prop} (h : Proceeds kept before after)
    (himp : kept before.levels after.levels → weaker before.levels after.levels) :
    Proceeds weaker before after :=
  ⟨h.resolvers, h.trail, himp h.levels⟩

theorem trans (htrans : ∀ {levels more most}, kept levels more → kept more most → kept levels most)
    (h : Proceeds kept before between) (h' : Proceeds kept between after) :
    Proceeds kept before after := by
  obtain ⟨marks, htrail, hmarks⟩ := h.trail
  obtain ⟨later, htrail', hlater⟩ := h'.trail
  refine ⟨h'.resolvers.trans h.resolvers, ⟨later ++ marks, ?_, ?_⟩, htrans h.levels h'.levels⟩
  · rw [htrail', htrail, List.append_assoc]
  · intro mark hmark
    rcases List.mem_append.mp hmark with hmark | hmark
    · exact hlater mark hmark
    · exact hmarks mark hmark

/-- A binding is put into the current scope. -/
theorem marked (hkept : kept before.levels before.levels) {mark : Mark}
    (hmark : mark.isOpened = false) :
    Proceeds kept before { before with trail := mark :: before.trail } :=
  ⟨rfl, ⟨[mark], rfl, fun other hother => by rwa [List.mem_singleton.mp hother]⟩, hkept⟩

/-- When a level is left, its scope with all bindings, its from clause and its resolver go. -/
theorem leave (h : Proceeds Levels.KeepBelow before.openLevel after) :
    before.Restored after.leaveLevel where
  trail := by
    obtain ⟨marks, htrail, hmarks⟩ := h.trail
    change after.trail.leave = before.trail
    rw [htrail]
    exact Trail.leave_append before.trail hmarks
  resolvers := congrArg List.tail h.resolvers
  levels := h.levels.2

end Context.Proceeds

namespace Context.Restored

variable {before between after : Context}

theorem refl (context : Context) : context.Restored context := ⟨rfl, rfl, .refl _⟩

theorem trans (h : before.Restored between) (h' : between.Restored after) :
    before.Restored after :=
  ⟨h'.trail.trans h.trail, h'.resolvers.trans h.resolvers, h.levels.trans h'.levels⟩

theorem proceeds (h : before.Restored after) : Proceeds Levels.Keep before after :=
  .of_levels h.resolvers h.trail h.levels

end Context.Restored

/-- What the steps on a level leave of the levels around it. -/
theorem keepingMotion (schema : Schema) (treat : DottedName → Prop) :
    Motion schema treat (Context.Proceeds Levels.Keep) (Context.Proceeds Levels.KeepBelow) where
  refl context := (Context.Restored.refl context).proceeds
  trans _ _ _ h h' := h.trans Levels.Keep.trans h'
  within _ _ h := h.mono Levels.Keep.below
  transWithin _ _ _ h h' := h.trans Levels.KeepBelow.trans h'
  depth _ _ h := h.levels.1
  idle _ _ _ _ _ _ _ := .of_levels rfl rfl (.refl _)
  register _ _ _ := .of_levels rfl rfl (.refl _)
  bind _ _ _ _ hbind := by
    rw [(Trail.bind_ok hbind).1]
    exact .marked (.refl _) rfl
  joinImplicitly context place root joins binding source join himplicit _ hopened hcontains := by
    refine .of_levels rfl rfl ?_
    rw [hopened]
    exact .fill (OpenSpace.keeps_joined himplicit hcontains)
  resolve _ _ _ h := ⟨congrArg List.tail h.resolvers, h.trail, h.levels⟩
  nest _ _ h := h.leave.proceeds
  openSpace _ _ _ hopen := .of_levels rfl rfl (Levels.keepBelow_openSpace hopen)
  declare _ _ _ hbind := by
    rw [(Trail.bind_ok hbind).1]
    exact .marked (.refl _) rfl
  fill context place space filled hopened habove := by
    refine .of_levels rfl rfl ?_
    rw [hopened]
    exact Levels.keepBelow_fill habove space filled
  select _ _ := .marked (.refl _) rfl

/-- A level that was left is restored. -/
theorem restoredLeaving : Leaving (Context.Proceeds Levels.KeepBelow) Context.Restored :=
  ⟨.refl, fun _ _ _ => .trans, fun _ _ => Context.Proceeds.leave⟩

namespace Step

/-- A query leaves the level that it opens, whatever its outcome. -/
theorem query_restored (schema : Schema) (before : Context) (written : Phrase.Query)
    (nested : Bool) : before.Restored ((query written nested).run' schema before).2 :=
  (query_leaves (keepingMotion schema fun _ => True) restoredLeaving
    (written.meets treating_always nested)).state

/-- A statement leaves all levels that it opens, whatever its outcome. -/
theorem statement_restored (schema : Schema) (before : Context) (written : Phrase.Statement) :
    before.Restored ((statement written).run' schema before).2 :=
  (statement_moves (keepingMotion schema fun _ => True) restoredLeaving written
    (written.meets treating_always)).state

end Step

/-- Levels are balanced on every exit path. After a query, in whatever state it is read, and after
a statement, scopes and resolvers are as before, as many from clauses are open with as many spaces
each, and every space has only gained implicit joins of elements that stand in it. A statement that
is read on its own leaves no scope, no resolver but the lasting one and no from clause. -/
theorem levels_balanced (schema : Schema) :
    (∀ (before : Context) (written : Phrase.Query) (nested : Bool),
        before.Restored ((Step.query written nested).run' schema before).2
          ∧ ((Step.query written nested).run' schema before).2.levels.map List.length
            = before.levels.map List.length)
      ∧ (∀ (before : Context) (phrase : Phrase.Statement),
        before.Restored ((Step.statement phrase).run' schema before).2)
      ∧ ∀ phrase : Phrase.Statement,
        ((Step.statement phrase).run' schema .empty).2.trail.depth = 0
          ∧ ((Step.statement phrase).run' schema .empty).2.resolverDepth = 1
          ∧ ((Step.statement phrase).run' schema .empty).2.levels = [] := by
  refine ⟨fun before written nested => ?_, Step.statement_restored schema, fun phrase => ?_⟩
  · have hrestored := Step.query_restored schema before written nested
    exact ⟨hrestored, hrestored.levels.counts⟩
  · obtain ⟨htrail, hresolvers, hlevels⟩ := Step.statement_restored schema .empty phrase
    refine ⟨?_, ?_, List.forall₂_nil_left_iff.mp hlevels⟩
    · rw [htrail]
      rfl
    · rw [Context.resolverDepth, hresolvers]
      rfl

end EntityQuery.Interpretation

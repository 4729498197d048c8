import EntityQuery.Proofs.ScopeStack

/-!
# Scopes that are kept

Scopes may also be held in an arena that never gives one up: each scope knows the one around it, and
a cursor tells the current scope. Entering appends a scope and moves the cursor to it, leaving moves
the cursor to the scope around. The chain of scopes from the cursor is the stack, so that an arena,
a trail and the stack answer alike; the arena also shows what became of the scopes that were left.

* `KeptScope`, `ScopeArena`: a scope with the number of the scope around it, and the arena.
* `Chained`: the scopes that lie around one another, from a scope outwards.
* `answers_stack`: arena, trail and stack give the same answers, and a scope that was left is gone.
* `Scope.Agrees`: an element and a result of one variable have one type.
* `arena_agrees_iff`: when all scopes agree.
-/

namespace EntityQuery.Interpretation

structure KeptScope where
  parent? : Option Nat := none
  bound : Scope := {}

/-- All scopes in the order of opening, and the number of the current one. -/
structure ScopeArena where
  scopes : List KeptScope := [{}]
  current : Nat := 0

namespace ScopeArena

/-- The numbers of a scope and of those around it. A scope lies in an earlier one. -/
def chainFrom (scopes : List KeptScope) (number : Nat) : List Nat :=
  match scopes[number]?.bind KeptScope.parent? with
  | none => [number]
  | some parent => if parent < number then number :: chainFrom scopes parent else [number]

def chain (arena : ScopeArena) : List Nat := chainFrom arena.scopes arena.current

/-- What is bound in a scope. -/
def bound (arena : ScopeArena) (number : Nat) : Scope :=
  (arena.scopes[number]?.getD {}).bound

def enter (arena : ScopeArena) : ScopeArena :=
  ⟨arena.scopes ++ [{ parent? := some arena.current }], arena.scopes.length⟩

/-- Goes back to the scope around, unless there is none. -/
def leave (arena : ScopeArena) : ScopeArena :=
  match arena.scopes[arena.current]?.bind KeptScope.parent? with
  | none => arena
  | some parent => { arena with current := parent }

/-- Changes the current scope. -/
def changeCurrent (arena : ScopeArena) (f : Scope → Except Fault Scope) : Except Fault ScopeArena :=
  (f (arena.bound arena.current)).map fun scope =>
    { arena with
      scopes := arena.scopes.modify arena.current fun kept => { kept with bound := scope } }

def element? (arena : ScopeArena) (aliasName : String) : Option FromElement :=
  arena.chain.findSome? fun number => (arena.bound number).element? aliasName

def step : ScopeCall → ScopeArena → ScopeAnswer Nat × ScopeArena
  | .enter, arena => (.entered arena.scopes.length, arena.enter)
  | .leave, arena => (.done, arena.leave)
  | .bind element, arena => answerChange arena (arena.changeCurrent (Scope.bind · element))
  | .bindSelection position selection, arena =>
    answerChange arena (arena.changeCurrent (Scope.bindSelection · position selection))
  | .findElement aliasName, arena => (.element (arena.element? aliasName), arena)
  | .findSelection aliasName, arena =>
    (.selection ((arena.bound arena.current).selection? aliasName), arena)
  | .depth, arena => (.depth (arena.chain.length - 1), arena)
  | .chain, arena =>
    (.chain (arena.chain.map fun number => (number, (arena.bound number).elements)), arena)

end ScopeArena

/-! ## The chain of a scope -/

/-- The numbered scopes from a scope outwards: each lies in the next, which was opened before. -/
inductive Chained (scopes : List KeptScope) : Nat → List (Nat × Scope) → Prop
  | outermost {number : Nat} {bound : Scope} (hscope : scopes[number]? = some ⟨none, bound⟩) :
    Chained scopes number [(number, bound)]
  | inside {number parent : Nat} {bound : Scope} {outer : List (Nat × Scope)}
    (hscope : scopes[number]? = some ⟨some parent, bound⟩) (hearlier : parent < number)
    (houter : Chained scopes parent outer) : Chained scopes number ((number, bound) :: outer)

namespace Chained

variable {scopes : List KeptScope} {number : Nat} {chain : List (Nat × Scope)}

theorem append (h : Chained scopes number chain) (later : List KeptScope) :
    Chained (scopes ++ later) number chain := by
  have hkeep : ∀ {index : Nat} {kept : KeptScope}, scopes[index]? = some kept →
      (scopes ++ later)[index]? = some kept := by
    intro index kept hkept
    obtain ⟨hindex, -⟩ := List.getElem?_eq_some_iff.mp hkept
    rw [List.getElem?_append_left hindex, hkept]
  induction h with
  | outermost hscope => exact .outermost (hkeep hscope)
  | inside hscope hearlier houter ih => exact .inside (hkeep hscope) hearlier ih

/-- A later scope may change. -/
theorem modify (h : Chained scopes number chain) {later : Nat} (hlater : number < later)
    (f : KeptScope → KeptScope) : Chained (scopes.modify later f) number chain := by
  have hkeep : ∀ {index : Nat} {kept : KeptScope}, index < later → scopes[index]? = some kept →
      (scopes.modify later f)[index]? = some kept := by
    intro index kept hindex hkept
    simp only [List.getElem?_modify, Nat.ne_of_gt hindex, if_false, hkept, Option.map_eq_map,
      Option.map_some]
  induction h with
  | outermost hscope => exact .outermost (hkeep hlater hscope)
  | inside hscope hearlier houter ih =>
    exact .inside (hkeep hlater hscope) hearlier (ih (Nat.lt_trans hearlier hlater))

theorem chainFrom_eq (h : Chained scopes number chain) :
    ScopeArena.chainFrom scopes number = chain.map Prod.fst := by
  induction h with
  | outermost hscope =>
    rw [ScopeArena.chainFrom, hscope]
    rfl
  | inside hscope hearlier houter ih =>
    rw [ScopeArena.chainFrom, hscope]
    simp only [Option.bind_some, hearlier, if_true, ih, List.map_cons]

/-- Every scope of the chain is found under its number. -/
theorem bound_eq {arena : ScopeArena} {number : Nat} (h : Chained arena.scopes number chain) :
    ∀ scope ∈ chain, arena.bound scope.1 = scope.2 := by
  induction h with
  | outermost hscope =>
    intro scope hmem
    rw [List.mem_singleton.mp hmem, ScopeArena.bound, hscope]
    rfl
  | inside hscope hearlier houter ih =>
    intro scope hmem
    rcases List.mem_cons.mp hmem with rfl | hmem
    · rw [ScopeArena.bound, hscope]
      rfl
    · exact ih scope hmem

end Chained

/-! ## An arena and its stack -/

/-- The scopes around the cursor are those of the stack. -/
structure ScopeArena.Keeps (arena : ScopeArena) (stack : ScopeStack) : Prop where
  opened : arena.scopes.length = stack.opened
  chained : Chained arena.scopes arena.current stack.scopes

namespace ScopeArena.Keeps

variable {arena : ScopeArena} {stack : ScopeStack}

theorem current (h : arena.Keeps stack) : arena.current = stack.top.1 := by
  have hchained := h.chained
  obtain ⟨top, below, opened⟩ := stack
  cases hchained <;> rfl

/-- The current scope, with the number of the scope around it. -/
theorem kept (h : arena.Keeps stack) :
    ∃ parent?, arena.scopes[arena.current]? = some ⟨parent?, stack.top.2⟩ := by
  have hchained := h.chained
  obtain ⟨top, below, opened⟩ := stack
  cases hchained with
  | outermost hscope => exact ⟨none, hscope⟩
  | inside hscope hearlier houter => exact ⟨some _, hscope⟩

theorem bound (h : arena.Keeps stack) : arena.bound arena.current = stack.top.2 := by
  rw [h.current]
  exact h.chained.bound_eq stack.top List.mem_cons_self

theorem enter (h : arena.Keeps stack) : arena.enter.Keeps stack.enter := by
  obtain ⟨parent?, hkept⟩ := h.kept
  obtain ⟨hcurrent, -⟩ := List.getElem?_eq_some_iff.mp hkept
  refine ⟨by simp [ScopeArena.enter, ScopeStack.enter, h.opened], ?_⟩
  have hchained := h.chained.append [{ parent? := some arena.current }]
  simp only [ScopeArena.enter, ScopeStack.enter, ← h.opened]
  exact .inside List.getElem?_concat_length hcurrent hchained

theorem leave (h : arena.Keeps stack) : arena.leave.Keeps stack.leave := by
  have hchained := h.chained
  obtain ⟨top, below, opened⟩ := stack
  cases hchained with
  | outermost hscope =>
    simp only [ScopeArena.leave, hscope]
    exact h
  | inside hscope hearlier houter =>
    simp only [ScopeArena.leave, hscope]
    cases houter with
    | outermost houtermost => exact ⟨h.opened, .outermost houtermost⟩
    | inside hnext hnextEarlier hrest => exact ⟨h.opened, .inside hnext hnextEarlier hrest⟩

/-- The current scope and the top of the stack changed alike. -/
theorem changed (h : arena.Keeps stack) (scope : Scope) :
    Keeps
      { arena with
        scopes := arena.scopes.modify arena.current fun kept => { kept with bound := scope } }
      { stack with top := (stack.top.1, scope) } := by
  have hchained := h.chained
  refine ⟨by rw [List.length_modify, h.opened], ?_⟩
  obtain ⟨top, below, opened⟩ := stack
  have hmodified : ∀ {number : Nat} {parent? : Option Nat} {old : Scope},
      arena.scopes[number]? = some ⟨parent?, old⟩ →
        (arena.scopes.modify number fun kept => { kept with bound := scope })[number]?
          = some ⟨parent?, scope⟩ := by
    intro number parent? old hscope
    simp only [List.getElem?_modify, if_true, hscope, Option.map_eq_map, Option.map_some]
  cases hchained with
  | outermost hscope => exact .outermost (hmodified hscope)
  | inside hscope hearlier houter =>
    exact .inside (hmodified hscope) hearlier (houter.modify hearlier _)

/-- A change of the current scope goes as on the stack. -/
theorem changeCurrent (h : arena.Keeps stack) (f : Scope → Except Fault Scope) :
    let outcome : ScopeAnswer Nat × ScopeArena := answerChange arena (arena.changeCurrent f)
    let expected : ScopeAnswer Nat × ScopeStack := answerChange stack (stack.changeTop f)
    outcome.1 = expected.1 ∧ outcome.2.Keeps expected.2 := by
  simp only [ScopeArena.changeCurrent, ScopeStack.changeTop, h.bound]
  cases f stack.top.2 with
  | error fault => exact ⟨rfl, h⟩
  | ok scope => exact ⟨rfl, h.changed scope⟩

theorem chain (h : arena.Keeps stack) : arena.chain = stack.scopes.map Prod.fst :=
  h.chained.chainFrom_eq

end ScopeArena.Keeps

namespace ScopeArena

/-- Every call on an arena is answered as on its stack. -/
theorem keeps_step (call : ScopeCall) {arena : ScopeArena} {stack : ScopeStack}
    (h : arena.Keeps stack) :
    (step call arena).1 = (ScopeStack.step call stack).1.rename id
      ∧ (step call arena).2.Keeps (ScopeStack.step call stack).2 := by
  rw [ScopeAnswer.rename_id]
  cases call with
  | enter => exact ⟨congrArg ScopeAnswer.entered h.opened, h.enter⟩
  | leave => exact ⟨rfl, h.leave⟩
  | bind element => exact h.changeCurrent _
  | bindSelection position selection => exact h.changeCurrent _
  | findElement aliasName =>
    refine ⟨congrArg ScopeAnswer.element ?_, h⟩
    have hfound : (stack.scopes.map fun scope => (arena.bound scope.1).element? aliasName)
        = stack.scopes.map fun scope => scope.2.element? aliasName :=
      List.map_congr_left fun scope hscope => by rw [h.chained.bound_eq scope hscope]
    have hfirst := congrArg (List.findSome? id) hfound
    rw [List.findSome?_map, List.findSome?_map] at hfirst
    rw [element?, h.chain, List.findSome?_map]
    exact hfirst
  | findSelection aliasName =>
    refine ⟨?_, h⟩
    simp only [step, ScopeStack.step, h.bound]
  | depth =>
    refine ⟨congrArg ScopeAnswer.depth ?_, h⟩
    rw [h.chain, List.length_map]
    rfl
  | chain =>
    refine ⟨congrArg ScopeAnswer.chain ?_, h⟩
    rw [h.chain, List.map_map]
    exact List.map_congr_left fun scope hscope => by
      simp only [Function.comp_apply, h.chained.bound_eq scope hscope]

theorem keeps_new : Keeps {} {} where
  opened := rfl
  chained := .outermost rfl

end ScopeArena

/-! ## Scopes that were left -/

/-- The calls leave the scopes that they enter and no others. `inside` more are to be left. -/
def balanced (inside : Nat) : List ScopeCall → Bool
  | [] => inside == 0
  | .enter :: calls => balanced (inside + 1) calls
  | .leave :: calls => inside != 0 && balanced (inside - 1) calls
  | _ :: calls => balanced inside calls

namespace Trail

/-- The trail has grown in a scope that was opened on `base`, and `inside` more are open. -/
def Above (base : Trail) (inside : Nat) (trail : Trail) : Prop :=
  ∃ marks : Trail, trail = marks ++ .opened :: base ∧ marks.depth = inside

theorem Above.leave {base trail : Trail} {inside : Nat} (h : Above base (inside + 1) trail) :
    Above base inside trail.leave := by
  obtain ⟨marks, rfl, hdepth⟩ := h
  have houter : ∃ rest, outer? (marks ++ .opened :: base) = some (rest ++ .opened :: base)
      ∧ depth rest = inside := by
    induction marks with
    | nil => cases hdepth
    | cons mark marks ih =>
      cases mark with
      | opened => exact ⟨marks, rfl, Nat.succ.inj ((depth_enter marks).symm.trans hdepth)⟩
      | element bound => exact ih hdepth
      | selection result => exact ih hdepth
  obtain ⟨rest, hrest, hinside⟩ := houter
  exact ⟨rest, by simp only [Trail.leave, hrest, Option.getD_some], hinside⟩

theorem Above.mark {base trail : Trail} {inside : Nat} (h : Above base inside trail) {mark : Mark}
    (hmark : mark.isOpened = false) : Above base inside (mark :: trail) := by
  obtain ⟨marks, rfl, hdepth⟩ := h
  refine ⟨mark :: marks, rfl, ?_⟩
  rw [← hdepth, depth, List.countP_cons_of_neg (by simp [hmark])]
  rfl

/-- What a change that may fail leaves behind stands above the same scope. -/
theorem Above.change {base trail : Trail} {inside : Nat} (h : Above base inside trail)
    {outcome : Except Fault Trail}
    (houtcome : ∀ after, outcome = .ok after → Above base inside after) :
    Above base inside (answerChange trail outcome : ScopeAnswer Unit × Trail).2 := by
  cases outcome with
  | error fault => exact h
  | ok after => exact houtcome after rfl

theorem Above.run {base : Trail} (calls : List ScopeCall) {inside : Nat} {trail : Trail}
    (h : Above base inside trail) (hcalls : balanced inside calls = true) :
    Above base 0 (runCalls step calls trail).2 := by
  induction calls generalizing inside trail with
  | nil =>
    rw [balanced, beq_iff_eq] at hcalls
    exact hcalls ▸ h
  | cons call calls ih =>
    cases call with
    | enter =>
      obtain ⟨marks, rfl, rfl⟩ := h
      exact ih ⟨.opened :: marks, rfl, depth_enter marks⟩ hcalls
    | leave =>
      simp only [balanced, Bool.and_eq_true, bne_iff_ne, ne_eq] at hcalls
      obtain ⟨rest, rfl⟩ := Nat.exists_eq_succ_of_ne_zero hcalls.1
      exact ih h.leave hcalls.2
    | bind element =>
      refine ih (h.change fun after hafter => ?_) hcalls
      rw [(bind_ok hafter).1]
      exact h.mark rfl
    | bindSelection position selection =>
      refine ih (h.change fun after hafter => ?_) hcalls
      rcases bindSelection_ok hafter with ⟨-, rfl⟩ | ⟨aliasName, -, rfl⟩
      · exact h
      · exact h.mark rfl
    | findElement aliasName => exact ih h hcalls
    | findSelection aliasName => exact ih h hcalls
    | depth => exact ih h hcalls
    | chain => exact ih h hcalls

/-- Nothing is left of a scope that was entered and left. -/
theorem run_left (before inner : List ScopeCall) (trail : Trail) (hinner : balanced 0 inner = true) :
    (runCalls step (before ++ .enter :: inner ++ [.leave]) trail).2
      = (runCalls step before trail).2 := by
  rw [runCalls_append, runCalls_append]
  have habove : Above (runCalls step before trail).2 0
      (runCalls step inner (runCalls step before trail).2.enter).2 :=
    Above.run inner ⟨[], rfl, rfl⟩ hinner
  obtain ⟨marks, hmarks, hdepth⟩ := habove
  have hopened : ∀ mark ∈ marks, mark.isOpened = false := by
    intro mark hmark
    exact Bool.eq_false_iff.mpr (List.countP_eq_zero.mp hdepth mark hmark)
  exact (congrArg leave hmarks).trans (leave_append _ hopened)

end Trail

/-! ## Answers alike -/

namespace ScopeArena.Keeps

variable {arena : ScopeArena} {stack : ScopeStack}

theorem run (h : arena.Keeps stack) (calls : List ScopeCall) :
    (runCalls step calls arena).1 = (runCalls ScopeStack.step calls stack).1
      ∧ (runCalls step calls arena).2.Keeps (runCalls ScopeStack.step calls stack).2 := by
  obtain ⟨hanswers, hkeeps⟩ := runCalls_simulates (fun call _ _ h => keeps_step call h) calls h
  refine ⟨hanswers.trans ?_, hkeeps⟩
  exact (List.map_congr_left fun answer _ => answer.rename_id).trans (List.map_id _)

/-- An arena and a trail with one stack give the same answers, the numbers of the scopes apart. -/
theorem answers_trail (h : arena.Keeps stack) {trail : Trail} (hreads : trail.Reads stack)
    (calls : List ScopeCall) :
    (runCalls step calls arena).1.map (ScopeAnswer.rename fun _ => ())
      = (runCalls Trail.step calls trail).1 := by
  rw [(h.run calls).1, (hreads.run calls).1]

end ScopeArena.Keeps

/-- Arena, trail and stack give the same answers to all calls, where the scopes of a trail go
without numbers; and after a scope was left everything is answered as if it had never been opened. -/
theorem answers_stack (calls : List ScopeCall) :
    (runCalls ScopeArena.step calls {}).1 = (runCalls ScopeStack.step calls {}).1
    ∧ (runCalls Trail.step calls []).1
        = (runCalls ScopeStack.step calls {}).1.map (ScopeAnswer.rename fun _ => ())
    ∧ ∀ before inner, calls = before ++ .enter :: inner ++ [.leave] → balanced 0 inner = true →
      (runCalls Trail.step calls []).2 = (runCalls Trail.step before []).2
      ∧ ∀ later,
        (runCalls ScopeArena.step later (runCalls ScopeArena.step calls {}).2).1.map
            (ScopeAnswer.rename fun _ => ())
          = (runCalls ScopeArena.step later (runCalls ScopeArena.step before {}).2).1.map
            (ScopeAnswer.rename fun _ => ()) := by
  have hkeeps := fun calls => (ScopeArena.keeps_new.run calls).2
  have hreads := fun calls => (Trail.reads_new.run calls).2
  refine ⟨(ScopeArena.keeps_new.run calls).1, (Trail.reads_new.run calls).1, ?_⟩
  rintro before inner rfl hinner
  have hleft := Trail.run_left before inner [] hinner
  refine ⟨hleft, fun later => ?_⟩
  rw [(hkeeps _).answers_trail (hreads _), (hkeeps before).answers_trail (hreads before), hleft]

def shadowedPerson : FromElement := .root ⟨0, "a", false, .entity ⟨"Person", []⟩⟩

/-- Another person under the same variable. -/
def shadowingPerson : FromElement := .root ⟨1, "a", false, .entity ⟨"Person", []⟩⟩

/-- The variable stands for the outer person again once the inner scope is left. -/
theorem answers_stack_shadowing :
    balanced 0 [.bind shadowingPerson, .findElement "a"] = true
      ∧ (runCalls Trail.step ([.bind shadowedPerson] ++ .enter ::
          [.bind shadowingPerson, .findElement "a"] ++ [.leave]) []).2
        = (runCalls Trail.step [.bind shadowedPerson] []).2 :=
  ⟨rfl, ((answers_stack _).2.2 [.bind shadowedPerson] [.bind shadowingPerson, .findElement "a"]
    rfl rfl).1⟩

/-! ## Elements and results of one variable -/

/-- A result that shares its variable with an element of the scope has the type of that element. -/
def Scope.Agrees (scope : Scope) : Prop :=
  ∀ element ∈ scope.elements, ∀ result ∈ scope.results,
    result.aliasName = element.aliasName → result.expression.type? = some element.type

/-- A result of the scope that has the variable of the element has its type. -/
def Scope.Admits (scope : Scope) (element : FromElement) : Prop :=
  ∀ result, scope.selection? element.aliasName = some result →
    result.expression.type? = some element.type

namespace Scope

variable {scope : Scope}

/-- An element keeps a scope in agreement just when the scope admits it. -/
theorem agrees_withElement (hdistinct : scope.Distinct) {element : FromElement}
    (hfree : scope.element? element.aliasName = none) :
    (scope.withElement element).Agrees ↔ scope.Agrees ∧ scope.Admits element := by
  rw [withElement_eq hfree]
  constructor
  · intro h
    refine ⟨fun other hother => h other (List.mem_append_left _ hother), fun result hresult => ?_⟩
    obtain ⟨hmem, hname⟩ := (Keyed.find?_eq_some_iff hdistinct.results).mp hresult
    exact h element (List.mem_append_right _ (List.mem_singleton_self _)) result hmem hname
  · rintro ⟨hagrees, hadmits⟩ other hother result hresult hname
    rcases List.mem_append.mp hother with hold | hnew
    · exact hagrees other hold result hresult hname
    · rw [List.mem_singleton.mp hnew] at hname ⊢
      exact hadmits result ((Keyed.find?_eq_some_iff hdistinct.results).mpr ⟨hresult, hname⟩)

/-- A result with the type of the element of its variable keeps a scope in agreement. -/
theorem agrees_withResult (hdistinct : scope.Distinct) {result : ResultVariable}
    (hfree : scope.selection? result.aliasName = none)
    (htype : ∀ element, scope.element? result.aliasName = some element →
      result.expression.type? = some element.type) :
    (scope.withResult result).Agrees ↔ scope.Agrees := by
  rw [withResult_eq hfree]
  constructor
  · intro h element helement other hother
    exact h element helement other (List.mem_append_left _ hother)
  · intro hagrees element helement other hother hname
    rcases List.mem_append.mp hother with hold | hnew
    · exact hagrees element helement other hold hname
    · rw [List.mem_singleton.mp hnew] at hname ⊢
      exact htype element
        ((Keyed.find?_eq_some_iff hdistinct.elements).mpr ⟨helement, hname.symm⟩)

/-- Binding a result never takes a scope out of agreement. -/
theorem agrees_bindSelection (hdistinct : scope.Distinct) {after : Scope} {position : Nat}
    {selection : Resolved.Selection} (h : scope.bindSelection position selection = .ok after) :
    after.Agrees ↔ scope.Agrees := by
  simp only [bindSelection] at h
  split at h
  · cases h
    exact Iff.rfl
  · rename_i aliasName halias
    split at h
    · cases h
    · rename_i hfree helement
      cases h
      refine agrees_withResult hdistinct hfree fun element hfound => ?_
      cases helement.symm.trans hfound
    · rename_i element hfree helement
      split at h
      · rename_i htype
        cases h
        refine agrees_withResult hdistinct hfree fun other hfound => ?_
        cases helement.symm.trans hfound
        exact htype
      · cases h

theorem agrees_empty : Agrees {} := fun _ h => nomatch h

end Scope

/-- An element may be bound, and its scope has a result of its variable with another type. -/
def Trail.Clashes (trail : Trail) (element : FromElement) : Prop :=
  (∃ after, trail.bind element = .ok after)
    ∧ ∃ result, trail.selection? element.aliasName = some result
      ∧ result.expression.type? ≠ some element.type

/-- A clash is an element that the current scope has room for but does not admit. -/
theorem Trail.Reads.clashes_iff {trail : Trail} {stack : ScopeStack} (h : trail.Reads stack)
    (element : FromElement) :
    trail.Clashes element ↔ stack.top.2.element? element.aliasName = none
      ∧ ¬ stack.top.2.Admits element := by
  have hbind : (∃ after, trail.bind element = .ok after)
      ↔ stack.top.2.element? element.aliasName = none := by
    rw [Trail.bind, h.current?]
    cases stack.top.2.element? element.aliasName with
    | none => exact ⟨fun _ => rfl, fun _ => ⟨_, rfl⟩⟩
    | some existing =>
      constructor
      · rintro ⟨after, hafter⟩
        cases hafter
      · intro hnone
        cases hnone
  simp only [Trail.Clashes, hbind, h.selection?, Scope.Admits, not_forall, exists_prop, ne_eq]

namespace ScopeArena

/-- In every scope that was ever opened elements and results agree. -/
def Agrees (arena : ScopeArena) : Prop := ∀ kept ∈ arena.scopes, kept.bound.Agrees

theorem agrees_modify {scopes : List KeptScope} {number : Nat} {parent? : Option Nat}
    {old new : Scope} {condition : Prop} (hscope : scopes[number]? = some ⟨parent?, old⟩)
    (hnew : new.Agrees ↔ old.Agrees ∧ condition) :
    (∀ kept ∈ scopes.modify number fun kept => { kept with bound := new }, kept.bound.Agrees)
      ↔ (∀ kept ∈ scopes, kept.bound.Agrees) ∧ condition := by
  induction scopes generalizing number with
  | nil => cases hscope
  | cons first scopes ih =>
    cases number with
    | zero =>
      obtain rfl := Option.some.inj hscope
      simp only [List.modify_zero_cons, List.forall_mem_cons, hnew]
      tauto
    | succ number =>
      have hrest := @ih number hscope
      simp only [List.modify_succ_cons, List.forall_mem_cons, hrest]
      tauto

/-- Only an element that clashes takes a scope out of agreement. -/
theorem agrees_step (call : ScopeCall) {arena : ScopeArena} {stack : ScopeStack} {trail : Trail}
    (h : arena.Keeps stack) (hreads : trail.Reads stack) :
    (step call arena).2.Agrees
      ↔ arena.Agrees ∧ ∀ element, call = .bind element → ¬ trail.Clashes element := by
  obtain ⟨parent?, hkept⟩ := h.kept
  have hdistinct := hreads.distinct stack.top List.mem_cons_self
  cases call with
  | bind element =>
    simp only [ScopeCall.bind.injEq, forall_eq', hreads.clashes_iff, step, changeCurrent, h.bound,
      Scope.bind]
    cases hfree : stack.top.2.element? element.aliasName with
    | some existing => simp [answerChange, Except.map]
    | none =>
      simp only [true_and, not_not]
      exact agrees_modify hkept (Scope.agrees_withElement hdistinct hfree)
  | bindSelection position selection =>
    simp only [reduceCtorEq, false_implies, implies_true, and_true, step, changeCurrent, h.bound]
    cases hafter : stack.top.2.bindSelection position selection with
    | error fault => exact Iff.rfl
    | ok after =>
      have hagrees := Scope.agrees_bindSelection hdistinct hafter
      exact (agrees_modify hkept (hagrees.trans (and_iff_left trivial).symm)).trans
        (and_iff_left trivial)
  | enter =>
    simp only [reduceCtorEq, false_implies, implies_true, and_true, step, enter, Agrees,
      List.forall_mem_append, List.forall_mem_singleton, Scope.agrees_empty]
  | leave =>
    have hscopes : arena.leave.scopes = arena.scopes := by
      unfold leave
      split <;> rfl
    simp only [reduceCtorEq, false_implies, implies_true, and_true, step, Agrees, hscopes]
  | _ => simp [step]

/-- Over a run, agreement is lost just at the elements that clash. -/
theorem agrees_run (calls : List ScopeCall) {arena : ScopeArena} {stack : ScopeStack}
    {trail : Trail} (h : arena.Keeps stack) (hreads : trail.Reads stack) :
    (runCalls step calls arena).2.Agrees
      ↔ arena.Agrees ∧ ∀ before element after, calls = before ++ .bind element :: after →
        ¬ (runCalls Trail.step before trail).2.Clashes element := by
  induction calls generalizing arena stack trail with
  | nil => simp [runCalls]
  | cons call calls ih =>
    have hrest := ih (keeps_step call h).2 (Trail.reads_step call hreads).2
    refine hrest.trans ?_
    rw [agrees_step call h hreads, and_assoc]
    refine and_congr_right fun _ => ?_
    constructor
    · rintro ⟨hfirst, hlater⟩ before element after hcalls
      cases before with
      | nil =>
        obtain ⟨rfl, -⟩ := List.cons.inj hcalls
        exact hfirst element rfl
      | cons other before =>
        obtain ⟨rfl, rfl⟩ := List.cons.inj hcalls
        exact hlater before element after rfl
    · intro hall
      refine ⟨fun element hcall => ?_, fun before element after hcalls => ?_⟩
      · exact hall [] element calls (by rw [hcall]; rfl)
      · exact hall (call :: before) element after (by rw [hcalls]; rfl)

end ScopeArena

/-- In all scopes that were ever opened elements and results of one variable have one type, just
when no element was bound next to a result of its variable with another type. Binding a result
checks the element of its variable, binding an element does not look at the results. -/
theorem arena_agrees_iff (calls : List ScopeCall) :
    (runCalls ScopeArena.step calls {}).2.Agrees
      ↔ ∀ before element after, calls = before ++ .bind element :: after →
        ¬ (runCalls Trail.step before []).2.Clashes element := by
  rw [ScopeArena.agrees_run calls ScopeArena.keeps_new Trail.reads_new]
  refine and_iff_right fun kept hkept => ?_
  rw [List.mem_singleton.mp hkept]
  exact Scope.agrees_empty

/-- A result variable of a text and then a person, both called `a`. -/
def clashingCalls : List ScopeCall :=
  [.bindSelection 0 (.mk (.literal ⟨.string "x", "x"⟩) (some "a")),
    .bind shadowedPerson]

/-- The element is bound next to the result, and the scope is out of agreement. -/
theorem clashingCalls_disagree :
    ¬ (runCalls ScopeArena.step clashingCalls {}).2.Agrees
      ∧ (runCalls ScopeArena.step clashingCalls {}).1 = [.done, .done] := by
  refine ⟨fun hagrees => ?_, rfl⟩
  refine (arena_agrees_iff clashingCalls).mp hagrees [_] _ [] rfl ⟨⟨_, rfl⟩, _, rfl, ?_⟩
  decide

end EntityQuery.Interpretation

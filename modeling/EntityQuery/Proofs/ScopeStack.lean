import EntityQuery.Domain.Keyed
import EntityQuery.Proofs.TrailFrames
import Mathlib.Data.List.Nodup

/-!
# Scopes as a stack of maps

What the scopes of a query answer, said once more by a stack of scopes that each hold two maps, one
from variables to elements and one from variables to results. Entering puts an empty scope on top,
leaving takes the top away unless it is the last, and binding touches the top only. An element is
looked for from the top down, a result in the top.

* `ScopeCall`, `ScopeAnswer`, `runCalls`: calls, their answers, and a list of calls in turn.
* `Scope`, `ScopeStack`: one scope, and the stack. Scopes on the stack are numbered in the order of
  opening.
* `Trail.reads_step`: the answers of a trail are those of the stack of its scopes.
-/

namespace EntityQuery

/-! ## Maps without repetition -/

namespace Keyed

variable {α : Type} {key : α → String} {entries : List α}

theorem find?_eq_some_iff (hnodup : (entries.map key).Nodup) {name : String} {entry : α} :
    find? key name entries = some entry ↔ entry ∈ entries ∧ key entry = name := by
  refine ⟨fun h => ⟨find?_mem h, find?_key h⟩, ?_⟩
  rintro ⟨hentry, hname⟩
  have hsome : (find? key name entries).isSome :=
    List.find?_isSome.mpr ⟨entry, hentry, beq_iff_eq.mpr hname⟩
  obtain ⟨other, hother⟩ := Option.isSome_iff_exists.mp hsome
  have hkey : key other = key entry := (find?_key hother).trans hname.symm
  rw [hother, List.inj_on_of_nodup_map hnodup (find?_mem hother) hentry hkey]

/-- Where no key is repeated, the newest entry of a key is its only one. -/
theorem find?_reverse (hnodup : (entries.map key).Nodup) (name : String) :
    find? key name entries.reverse = find? key name entries := by
  have hreverse : (entries.reverse.map key).Nodup := by
    rw [List.map_reverse]
    exact List.nodup_reverse.mpr hnodup
  refine Option.ext fun entry => ?_
  rw [find?_eq_some_iff hreverse, find?_eq_some_iff hnodup, List.mem_reverse]

/-- A new key goes to the end. -/
theorem insert_of_absent {entry : α} (habsent : find? key (key entry) entries = none) :
    insert key entry entries = entries ++ [entry] := by
  induction entries with
  | nil => rfl
  | cons other entries ih =>
    rw [find?_cons] at habsent
    split at habsent
    · cases habsent
    · rename_i hother
      simp only [insert, hother, Bool.false_eq_true, if_false, ih habsent, List.cons_append]

theorem nodup_insert {entry : α} (hnodup : (entries.map key).Nodup)
    (habsent : find? key (key entry) entries = none) :
    ((insert key entry entries).map key).Nodup := by
  rw [insert_of_absent habsent, List.map_append]
  refine List.nodup_append'.mpr ⟨hnodup, List.nodup_singleton _, ?_⟩
  simp only [List.map_cons, List.map_nil, List.disjoint_singleton, List.mem_map, not_exists, not_and]
  intro other hother hkey
  exact List.find?_eq_none.mp habsent other hother (beq_iff_eq.mpr hkey)

end Keyed

namespace Interpretation

/-! ## Calls and answers -/

inductive ScopeCall where
  | enter
  | leave
  | bind (element : FromElement)
  | bindSelection (position : Nat) (selection : Resolved.Selection)
  | findElement (aliasName : String)
  | findSelection (aliasName : String)
  | depth
  /-- The open scopes with their elements, the current one first. -/
  | chain

/-- What a call is answered with, where scopes go by names of the type `Name`. -/
inductive ScopeAnswer (Name : Type) where
  | entered (scope : Name)
  | done
  | failed (fault : Fault)
  | element (found? : Option FromElement)
  | selection (found? : Option ResultVariable)
  | depth (count : Nat)
  | chain (scopes : List (Name × List FromElement))

/-- The answer with other names for the scopes. -/
def ScopeAnswer.rename {Name Other : Type} (f : Name → Other) : ScopeAnswer Name → ScopeAnswer Other
  | entered scope => .entered (f scope)
  | done => .done
  | failed fault => .failed fault
  | element found? => .element found?
  | selection found? => .selection found?
  | .depth count => .depth count
  | chain scopes => .chain (scopes.map fun scope => (f scope.1, scope.2))

@[simp] theorem ScopeAnswer.rename_id {Name : Type} (answer : ScopeAnswer Name) :
    answer.rename id = answer := by
  cases answer with
  | chain scopes => exact congrArg ScopeAnswer.chain (List.map_id scopes)
  | _ => rfl

/-- The answer to a change that may fail and then leaves the state as it was. -/
def answerChange {State Name : Type} (state : State) : Except Fault State → ScopeAnswer Name × State
  | .ok after => (.done, after)
  | .error fault => (.failed fault, state)

/-- The answers to calls that are made one after the other, and the state that they lead to. -/
def runCalls {State Name : Type} (step : ScopeCall → State → ScopeAnswer Name × State) :
    List ScopeCall → State → List (ScopeAnswer Name) × State
  | [], state => ([], state)
  | call :: calls, state =>
    let (answer, state) := step call state
    let (answers, state) := runCalls step calls state
    (answer :: answers, state)

theorem runCalls_append {State Name : Type} (step : ScopeCall → State → ScopeAnswer Name × State)
    (calls more : List ScopeCall) (state : State) :
    (runCalls step (calls ++ more) state).2
      = (runCalls step more (runCalls step calls state).2).2 := by
  induction calls generalizing state with
  | nil => rfl
  | cons call calls ih => exact ih (step call state).2

/-- Two states of which each call makes two such states again, with the same answer up to names,
give the same answers to all calls. -/
theorem runCalls_simulates {State Other Name OtherName : Type}
    {step : ScopeCall → State → ScopeAnswer Name × State}
    {otherStep : ScopeCall → Other → ScopeAnswer OtherName × Other} {f : OtherName → Name}
    {related : State → Other → Prop}
    (hstep : ∀ call {state other}, related state other →
      (step call state).1 = (otherStep call other).1.rename f
        ∧ related (step call state).2 (otherStep call other).2)
    (calls : List ScopeCall) {state : State} {other : Other} (h : related state other) :
    (runCalls step calls state).1
        = (runCalls otherStep calls other).1.map (ScopeAnswer.rename f)
      ∧ related (runCalls step calls state).2 (runCalls otherStep calls other).2 := by
  induction calls generalizing state other with
  | nil => exact ⟨rfl, h⟩
  | cons call calls ih =>
    obtain ⟨hanswer, hafter⟩ := hstep call h
    obtain ⟨hanswers, hlast⟩ := ih hafter
    refine ⟨?_, hlast⟩
    simp only [runCalls, List.map_cons, hanswer, hanswers]

/-! ## The scopes as they run -/

/-- A call of a trail. The scopes of a trail have no names. -/
def Trail.step : ScopeCall → Trail → ScopeAnswer Unit × Trail
  | .enter, trail => (.entered (), trail.enter)
  | .leave, trail => (.done, trail.leave)
  | .bind element, trail => answerChange trail (trail.bind element)
  | .bindSelection position selection, trail =>
    answerChange trail (trail.bindSelection position selection)
  | .findElement aliasName, trail => (.element (trail.element? aliasName), trail)
  | .findSelection aliasName, trail => (.selection (trail.selection? aliasName), trail)
  | .depth, trail => (.depth trail.depth, trail)
  | .chain, trail => (.chain (trail.frames.map fun frame => ((), frame)), trail)

/-! ## One scope -/

/-- What is bound in one scope, in the order of binding. -/
structure Scope where
  elements : List FromElement := []
  results : List ResultVariable := []

namespace Scope

def element? (scope : Scope) (aliasName : String) : Option FromElement :=
  Keyed.find? FromElement.aliasName aliasName scope.elements

def selection? (scope : Scope) (aliasName : String) : Option ResultVariable :=
  Keyed.find? ResultVariable.aliasName aliasName scope.results

def withElement (scope : Scope) (element : FromElement) : Scope :=
  { scope with elements := Keyed.insert FromElement.aliasName element scope.elements }

def withResult (scope : Scope) (result : ResultVariable) : Scope :=
  { scope with results := Keyed.insert ResultVariable.aliasName result scope.results }

/-- Binds the variable of an element, which must be free for elements. -/
def bind (scope : Scope) (element : FromElement) : Except Fault Scope :=
  match scope.element? element.aliasName with
  | some existing => .error (.aliasBound existing element)
  | none => .ok (scope.withElement element)

/-- Binds a result variable, which must be free for results and may be that of an element with the
type of the selected expression. -/
def bindSelection (scope : Scope) (position : Nat) (selection : Resolved.Selection) :
    Except Fault Scope :=
  match selection.alias? with
  | none => .ok scope
  | some aliasName =>
    let bound := scope.withResult ⟨aliasName, position, selection.expression⟩
    match scope.selection? aliasName, scope.element? aliasName with
    | some _, _ => .error (.duplicateSelection aliasName)
    | none, none => .ok bound
    | none, some element =>
      if selection.expression.type? = some element.type then .ok bound
      else .error (.selectionCollision aliasName selection.expression.type? element)

/-- No variable is bound twice to elements, and none twice to results. -/
structure Distinct (scope : Scope) : Prop where
  elements : (scope.elements.map FromElement.aliasName).Nodup
  results : (scope.results.map ResultVariable.aliasName).Nodup

variable {scope : Scope}

theorem withElement_eq {element : FromElement} (hfree : scope.element? element.aliasName = none) :
    scope.withElement element = { scope with elements := scope.elements ++ [element] } :=
  congrArg (Scope.mk · scope.results) (Keyed.insert_of_absent hfree)

theorem withResult_eq {result : ResultVariable} (hfree : scope.selection? result.aliasName = none) :
    scope.withResult result = { scope with results := scope.results ++ [result] } :=
  congrArg (Scope.mk scope.elements) (Keyed.insert_of_absent hfree)

theorem Distinct.empty : Distinct {} := ⟨List.nodup_nil, List.nodup_nil⟩

theorem Distinct.withElement (h : scope.Distinct) {element : FromElement}
    (hfree : scope.element? element.aliasName = none) : (scope.withElement element).Distinct :=
  ⟨Keyed.nodup_insert h.elements hfree, h.results⟩

theorem Distinct.withResult (h : scope.Distinct) {result : ResultVariable}
    (hfree : scope.selection? result.aliasName = none) : (scope.withResult result).Distinct :=
  ⟨h.elements, Keyed.nodup_insert h.results hfree⟩

end Scope

/-! ## The stack -/

/-- Numbered scopes, the current one on top, with the number of scopes that were ever opened. -/
structure ScopeStack where
  top : Nat × Scope := (0, {})
  below : List (Nat × Scope) := []
  opened : Nat := 1

namespace ScopeStack

def scopes (stack : ScopeStack) : List (Nat × Scope) := stack.top :: stack.below

def enter (stack : ScopeStack) : ScopeStack :=
  ⟨(stack.opened, {}), stack.scopes, stack.opened + 1⟩

/-- Takes the top away unless it is the last scope. -/
def leave (stack : ScopeStack) : ScopeStack :=
  match stack.below with
  | [] => stack
  | top :: below => { stack with top, below }

/-- Changes the scope on top. -/
def changeTop (stack : ScopeStack) (f : Scope → Except Fault Scope) : Except Fault ScopeStack :=
  (f stack.top.2).map fun scope => { stack with top := (stack.top.1, scope) }

def element? (stack : ScopeStack) (aliasName : String) : Option FromElement :=
  stack.scopes.findSome? fun scope => scope.2.element? aliasName

def step : ScopeCall → ScopeStack → ScopeAnswer Nat × ScopeStack
  | .enter, stack => (.entered stack.opened, stack.enter)
  | .leave, stack => (.done, stack.leave)
  | .bind element, stack => answerChange stack (stack.changeTop (Scope.bind · element))
  | .bindSelection position selection, stack =>
    answerChange stack (stack.changeTop (Scope.bindSelection · position selection))
  | .findElement aliasName, stack => (.element (stack.element? aliasName), stack)
  | .findSelection aliasName, stack => (.selection (stack.top.2.selection? aliasName), stack)
  | .depth, stack => (.depth stack.below.length, stack)
  | .chain, stack => (.chain (stack.scopes.map fun scope => (scope.1, scope.2.elements)), stack)

end ScopeStack

/-! ## The scopes of a trail -/

namespace Trail

/-- The current scope and the ones around it. -/
def scopes : Trail → Scope × List Scope
  | [] => ({}, [])
  | .opened :: trail => ({}, (scopes trail).1 :: (scopes trail).2)
  | .element bound :: trail =>
    ({ (scopes trail).1 with elements := (scopes trail).1.elements ++ [bound] }, (scopes trail).2)
  | .selection result :: trail =>
    ({ (scopes trail).1 with results := (scopes trail).1.results ++ [result] }, (scopes trail).2)

theorem scopes_current (trail : Trail) :
    trail.scopes.1 = ⟨((current trail).filterMap Mark.element?).reverse, trail.results.reverse⟩ := by
  induction trail with
  | nil => rfl
  | cons mark trail ih =>
    cases mark with
    | opened => rfl
    | element bound =>
      simp only [scopes, ih, Scope.mk.injEq]
      exact ⟨List.reverse_cons.symm, rfl⟩
    | selection result =>
      simp only [scopes, ih, Scope.mk.injEq]
      exact ⟨rfl, List.reverse_cons.symm⟩

theorem scopes_frames (trail : Trail) :
    trail.frames = (trail.scopes.1 :: trail.scopes.2).map Scope.elements := by
  induction trail with
  | nil => rfl
  | cons mark trail ih =>
    cases mark with
    | opened => simp [frames, scopes, ih]
    | element bound => rw [frames_element, ih]; rfl
    | selection result => exact ih

theorem scopes_depth (trail : Trail) : trail.depth = trail.scopes.2.length := by
  induction trail with
  | nil => rfl
  | cons mark trail ih =>
    cases mark with
    | opened => exact (depth_enter trail).trans (congrArg (· + 1) ih)
    | element bound => exact ih
    | selection result => exact ih

theorem scopes_leave (trail : Trail) :
    trail.leave.scopes = match trail.scopes.2 with
      | [] => trail.scopes
      | scope :: outer => (scope, outer) := by
  have houter : (outer? trail).map scopes = match trail.scopes.2 with
      | [] => none
      | scope :: outer => some (scope, outer) := by
    induction trail with
    | nil => rfl
    | cons mark trail ih =>
      cases mark with
      | opened => rfl
      | element bound => exact ih
      | selection result => exact ih
  unfold leave
  split at houter <;> cases h : outer? trail <;> simp_all

/-- The newest element of a variable is that of the innermost scope which binds it. -/
theorem scopes_element? (trail : Trail) (aliasName : String) :
    trail.element? aliasName = (trail.scopes.1 :: trail.scopes.2).findSome? fun scope =>
      Keyed.find? FromElement.aliasName aliasName scope.elements.reverse := by
  induction trail with
  | nil => rfl
  | cons mark trail ih =>
    cases mark with
    | opened => exact ih
    | selection result => exact ih
    | element bound =>
      have hnext : element? (.element bound :: trail) aliasName
          = if bound.aliasName == aliasName then some bound else element? trail aliasName := by
        simp only [element?, find?, List.filterMap_cons, Mark.element?, List.find?_cons]
        split <;> simp_all
      simp only [hnext, ih, scopes, List.findSome?_cons, List.reverse_append, List.reverse_singleton,
        List.singleton_append, Keyed.find?_cons]
      split <;> rfl

/-! ## A trail and its stack -/

/-- The stack holds the scopes of the trail. -/
structure Reads (trail : Trail) (stack : ScopeStack) : Prop where
  scopes : trail.scopes = (stack.top.2, stack.below.map Prod.snd)
  distinct : ∀ scope ∈ stack.scopes, scope.2.Distinct

namespace Reads

variable {trail : Trail} {stack : ScopeStack}

theorem top (h : trail.Reads stack) : trail.scopes.1 = stack.top.2 := by rw [h.scopes]

theorem all (h : trail.Reads stack) :
    trail.scopes.1 :: trail.scopes.2 = stack.scopes.map Prod.snd := by
  rw [h.scopes]
  rfl

theorem enter (h : trail.Reads stack) : trail.enter.Reads stack.enter where
  scopes := congrArg (Prod.mk ({} : Scope)) h.all
  distinct scope hscope := by
    rcases List.mem_cons.mp hscope with rfl | hscope
    · exact .empty
    · exact h.distinct scope hscope

theorem leave (h : trail.Reads stack) : trail.leave.Reads stack.leave := by
  have hleave := scopes_leave trail
  rw [h.scopes] at hleave
  obtain ⟨top, below, opened⟩ := stack
  cases below with
  | nil => exact ⟨hleave, h.distinct⟩
  | cons next below => exact ⟨hleave, fun scope hscope => h.distinct scope (List.mem_cons_of_mem _ hscope)⟩

theorem element? (h : trail.Reads stack) (aliasName : String) :
    trail.element? aliasName = stack.element? aliasName := by
  have hscopes : (stack.scopes.map fun scope =>
        Keyed.find? FromElement.aliasName aliasName scope.2.elements.reverse)
      = stack.scopes.map fun scope => scope.2.element? aliasName :=
    List.map_congr_left fun scope hscope =>
      Keyed.find?_reverse (h.distinct scope hscope).elements aliasName
  rw [scopes_element?, h.all, List.findSome?_map, ScopeStack.element?]
  have hfound := congrArg (List.findSome? id) hscopes
  rw [List.findSome?_map, List.findSome?_map] at hfound
  exact hfound

theorem current? (h : trail.Reads stack) (aliasName : String) :
    find? aliasName (current trail) = stack.top.2.element? aliasName := by
  have hcurrent : stack.top.2.elements = ((current trail).filterMap Mark.element?).reverse := by
    rw [← h.top, scopes_current]
  rw [Scope.element?, hcurrent, Keyed.find?_reverse]
  · rfl
  · have hnodup := (h.distinct stack.top List.mem_cons_self).elements
    rwa [hcurrent, List.map_reverse, List.nodup_reverse] at hnodup

theorem selection? (h : trail.Reads stack) (aliasName : String) :
    trail.selection? aliasName = stack.top.2.selection? aliasName := by
  have hcurrent : stack.top.2.results = trail.results.reverse := by rw [← h.top, scopes_current]
  rw [Scope.selection?, hcurrent, Keyed.find?_reverse]
  · rfl
  · have hnodup := (h.distinct stack.top List.mem_cons_self).results
    rwa [hcurrent, List.map_reverse, List.nodup_reverse] at hnodup

/-- The trail and the stack with another scope on top. -/
theorem changeTop (h : trail.Reads stack) {after : Trail} {scope : Scope}
    (hscopes : after.scopes = (scope, trail.scopes.2)) (hdistinct : scope.Distinct) :
    after.Reads { stack with top := (stack.top.1, scope) } where
  scopes := by rw [hscopes, h.scopes]
  distinct other hother := by
    rcases List.mem_cons.mp hother with rfl | hother
    · exact hdistinct
    · exact h.distinct other (List.mem_cons_of_mem _ hother)

/-- Elements are bound alike: the first of a variable wins in either. -/
theorem bind (h : trail.Reads stack) (element : FromElement) :
    (Trail.step (.bind element) trail).1
        = (ScopeStack.step (.bind element) stack).1.rename (fun _ => ())
      ∧ (Trail.step (.bind element) trail).2.Reads (ScopeStack.step (.bind element) stack).2 := by
  have hdistinct := h.distinct stack.top List.mem_cons_self
  simp only [step, ScopeStack.step, Trail.bind, ScopeStack.changeTop, Scope.bind, h.current?]
  cases hfree : stack.top.2.element? element.aliasName with
  | some existing => exact ⟨rfl, h⟩
  | none =>
    have hscopes : Trail.scopes (.element element :: trail)
        = (stack.top.2.withElement element, trail.scopes.2) := by
      simp only [Trail.scopes, h.top, Scope.withElement_eq hfree]
    exact ⟨rfl, h.changeTop hscopes (hdistinct.withElement hfree)⟩

/-- Results are bound alike. -/
theorem bindSelection (h : trail.Reads stack) (position : Nat) (selection : Resolved.Selection) :
    (Trail.step (.bindSelection position selection) trail).1
        = (ScopeStack.step (.bindSelection position selection) stack).1.rename (fun _ => ())
      ∧ (Trail.step (.bindSelection position selection) trail).2.Reads
        (ScopeStack.step (.bindSelection position selection) stack).2 := by
  have hdistinct := h.distinct stack.top List.mem_cons_self
  simp only [step, ScopeStack.step, Trail.bindSelection, ScopeStack.changeTop, Scope.bindSelection,
    h.current?, h.selection?]
  cases selection.alias? with
  | none => exact ⟨rfl, h⟩
  | some aliasName =>
    dsimp only
    cases hfree : stack.top.2.selection? aliasName with
    | some existing => exact ⟨rfl, h⟩
    | none =>
      let result : ResultVariable := ⟨aliasName, position, selection.expression⟩
      have hfreeResult : stack.top.2.selection? result.aliasName = none := hfree
      have hscopes : Trail.scopes (.selection result :: trail)
          = (stack.top.2.withResult result, trail.scopes.2) := by
        simp only [Trail.scopes, h.top, Scope.withResult_eq hfreeResult]
      have hbound := h.changeTop hscopes (hdistinct.withResult hfreeResult)
      cases stack.top.2.element? aliasName with
      | none => exact ⟨rfl, hbound⟩
      | some element =>
        by_cases htype : selection.expression.type? = some element.type
        · simp only [Option.isSome_none, Bool.false_eq_true, if_false, htype, if_true]
          exact ⟨rfl, hbound⟩
        · simp only [Option.isSome_none, Bool.false_eq_true, if_false, htype]
          exact ⟨rfl, h⟩

end Reads

/-- Every call on a trail is answered as on its stack, up to the numbers of the scopes. -/
theorem reads_step (call : ScopeCall) {trail : Trail} {stack : ScopeStack} (h : trail.Reads stack) :
    (Trail.step call trail).1 = (ScopeStack.step call stack).1.rename (fun _ => ())
      ∧ (Trail.step call trail).2.Reads (ScopeStack.step call stack).2 := by
  cases call with
  | enter => exact ⟨rfl, h.enter⟩
  | leave => exact ⟨rfl, h.leave⟩
  | bind element => exact h.bind element
  | bindSelection position selection => exact h.bindSelection position selection
  | findElement aliasName => exact ⟨congrArg ScopeAnswer.element (h.element? aliasName), h⟩
  | findSelection aliasName => exact ⟨congrArg ScopeAnswer.selection (h.selection? aliasName), h⟩
  | depth =>
    have hdepth : trail.depth = stack.below.length := by
      rw [scopes_depth, h.scopes, List.length_map]
    exact ⟨congrArg ScopeAnswer.depth hdepth, h⟩
  | chain =>
    refine ⟨congrArg ScopeAnswer.chain ?_, h⟩
    rw [scopes_frames, h.all]
    simp only [List.map_map, Function.comp_def]

theorem reads_new : Trail.Reads [] {} where
  scopes := rfl
  distinct scope hscope := by
    rw [List.mem_singleton.mp hscope]
    exact .empty

theorem Reads.run {trail : Trail} {stack : ScopeStack} (h : trail.Reads stack)
    (calls : List ScopeCall) :
    (runCalls step calls trail).1
        = (runCalls ScopeStack.step calls stack).1.map (ScopeAnswer.rename fun _ => ())
      ∧ (runCalls step calls trail).2.Reads (runCalls ScopeStack.step calls stack).2 :=
  runCalls_simulates (fun call _ _ h => reads_step call h) calls h

end Trail
end Interpretation
end EntityQuery

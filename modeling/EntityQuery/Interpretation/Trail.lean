import EntityQuery.Interpretation.Fault
import EntityQuery.Resolved.Typing

/-!
# Scopes

The trail records what was bound and where scopes were opened, newest first. A variable is looked
up through all scopes that are open, so that an inner query sees the variables of the outer ones;
a result variable is seen in its own scope only. Leaving a scope forgets what was bound since it
was opened.

* `Trail.bind`, `Trail.bindSelection`: bind a variable that is free in the current scope.
* `Trail.element?`, `Trail.selection?`: look-up.
* `Trail.frames`: the elements of all open scopes.
-/

namespace EntityQuery.Interpretation

/-- A result variable with the position and the expression that it stands for. -/
structure ResultVariable where
  aliasName : String
  position : Nat
  expression : Resolved.Expression

inductive Mark where
  /-- A scope was opened here. -/
  | opened
  | element (element : FromElement)
  | selection (result : ResultVariable)

/-- What was bound, newest first. -/
abbrev Trail := List Mark

namespace Mark

def isOpened : Mark → Bool
  | opened => true
  | _ => false

def element? : Mark → Option FromElement
  | element bound => some bound
  | _ => none

def selection? : Mark → Option ResultVariable
  | selection result => some result
  | _ => none

end Mark

namespace Trail

/-- The number of scopes that were opened and not left. -/
def depth (trail : Trail) : Nat := trail.countP Mark.isOpened

/-- Opens a scope. -/
def enter (trail : Trail) : Trail := .opened :: trail

/-- What remains when the current scope is left; the outermost one is never left. -/
def outer? : Trail → Option Trail
  | [] => none
  | .opened :: trail => some trail
  | _ :: trail => outer? trail

/-- Leaves the current scope, unless it is the outermost one. -/
def leave (trail : Trail) : Trail := (outer? trail).getD trail

/-- What was bound in the current scope. -/
def current (trail : Trail) : List Mark := trail.takeWhile fun mark => !mark.isOpened

/-- The newest element with an alias in a list of marks. -/
def find? (aliasName : String) (marks : List Mark) : Option FromElement :=
  (marks.filterMap Mark.element?).find? fun element => element.aliasName == aliasName

/-- The element that a variable stands for, the innermost scope first. -/
def element? (trail : Trail) (aliasName : String) : Option FromElement := find? aliasName trail

/-- The result variable of a name in the current scope. -/
def selection? (trail : Trail) (aliasName : String) : Option ResultVariable :=
  ((current trail).filterMap Mark.selection?).find? fun result => result.aliasName == aliasName

/-- The elements of each open scope in the order of binding, the innermost scope first. -/
def frames : Trail → List (List FromElement)
  | [] => [[]]
  | .opened :: trail => [] :: frames trail
  | .element bound :: trail =>
    match frames trail with
    | [] => [[bound]]
    | frame :: outer => (frame ++ [bound]) :: outer
  | .selection _ :: trail => frames trail

/-- Binds the alias of an element, which may hide one of an outer scope. -/
def bind (trail : Trail) (element : FromElement) : Except Fault Trail :=
  match find? element.aliasName (current trail) with
  | some existing => .error (.aliasBound existing element)
  | none => .ok (.element element :: trail)

/-- Binds a result variable. It may share its name with an element of the scope that has the type
of the selected expression. -/
def bindSelection (trail : Trail) (position : Nat) (selection : Resolved.Selection) :
    Except Fault Trail :=
  match selection.alias? with
  | none => .ok trail
  | some aliasName =>
    if (selection? trail aliasName).isSome then .error (.duplicateSelection aliasName)
    else
      let bound : Trail := .selection ⟨aliasName, position, selection.expression⟩ :: trail
      match find? aliasName (current trail) with
      | none => .ok bound
      | some element =>
        if selection.expression.type? = some element.type then .ok bound
        else .error (.selectionCollision aliasName selection.expression.type? element)

@[simp] theorem leave_enter (trail : Trail) : trail.enter.leave = trail := rfl

@[simp] theorem depth_enter (trail : Trail) : trail.enter.depth = trail.depth + 1 := by
  simp [depth, enter, List.countP_cons, Mark.isOpened]

end Trail
end EntityQuery.Interpretation

import EntityQuery.Resolved.Traversal

/-!
# Records of traversals

A record lists the nodes that a traversal enters and leaves and the leaves that it meets, as they
were before they were replaced. A masked query says which constants and parameters it has no more.

* `Statement.recorded`: the result of a traversal with its record.
* `Traversal.masking`: hides literals and parameters.
-/

namespace EntityQuery.Resolved

/-- An entry of a record. -/
inductive Visit where
  | enter (kind : NodeKind)
  | leave (kind : NodeKind)
  | element (element : FromElement)
  | literal (literal : Literal)
  | parameter (parameter : Phrase.Parameter)
  deriving DecidableEq, Repr

namespace Literal

/-- What a hidden literal is replaced with. -/
def masked : Literal := ⟨.null, "?"⟩

end Literal

namespace Traversal

/-- Replaces every literal and every parameter by the same one. -/
def masking {m : Type → Type} [Monad m] : Traversal m :=
  { onLiteral := fun _ => pure Literal.masked
    onParameter := fun _ => pure (.positional 1) }

/-- Adds an entry to a record, which holds the newest entry first. -/
def note (visit : Visit) : StateM (List Visit) Unit := modify fun record => visit :: record

/-- A traversal that keeps a record. -/
def recording (hooks : Traversal (StateM (List Visit))) : Traversal (StateM (List Visit)) :=
  { hooks with
    enter := fun kind => do
      note (.enter kind)
      hooks.enter kind
    leave := fun kind => do
      note (.leave kind)
      hooks.leave kind
    onElement := fun element => do
      note (.element element)
      hooks.onElement element
    onLiteral := fun token => do
      note (.literal token)
      hooks.onLiteral token
    onParameter := fun parameter => do
      note (.parameter parameter)
      hooks.onParameter parameter }

end Traversal

namespace Statement

/-- The result of a traversal with its record, oldest entry first. -/
def recorded (hooks : Traversal (StateM (List Visit))) (statement : Statement) :
    Statement × List Visit :=
  let (result, record) := (statement.traverse hooks.recording).run []
  (result, record.reverse)

end Statement
end EntityQuery.Resolved

import EntityQuery.Resolved.Leaf
import EntityQuery.Resolved.Narrowing
import EntityQuery.Resolved.Traversal
import EntityQuery.Resolved.Typing

/-!
# Copies of a query

A copy of a query has elements of its own: each is copied once, however often it is mentioned, and
after what it was reached by. One element gets another type on the way, and the types that follow
from it are inferred again.

* `Query.copy`: the copy of a query with the number that the next copy may start from.
-/

namespace EntityQuery.Splitting

open Resolved (Select Traversal)

/-- A query with the marks of its elements. -/
structure Query where
  select : Select
  narrowings : Narrowings

/-- What a copy changes: the element of a number gets the type of an entity. -/
structure Rebinding where
  uid : Nat
  entity : Entity
  deriving DecidableEq, Repr

/-- An element with its copy. -/
structure CopiedElement where
  uid : Nat
  copy : FromElement
  deriving DecidableEq, Repr

/-- How far a copy has come. -/
structure Copying where
  nextUid : Nat
  copied : List CopiedElement := []
  narrowings : Narrowings := []

namespace Rebinding

/-- The copied type of a binding. -/
def type (rebinding : Rebinding) (binding : Binding) : TypeDescriptor :=
  if binding.uid = rebinding.uid then .entity rebinding.entity else binding.type

/-- Makes the copy of an element under a fresh number; its marks are taken along. -/
def fresh (rebinding : Rebinding) (marks : Narrowings) (binding : Binding)
    (make : Binding → FromElement) : StateM Copying FromElement :=
  modifyGet fun state =>
    let copy := make { binding with uid := state.nextUid, type := rebinding.type binding }
    (copy,
      { nextUid := state.nextUid + 1
        copied := ⟨binding.uid, copy⟩ :: state.copied
        narrowings := state.narrowings.transfer marks binding.uid state.nextUid })

/-- The copy of an element that may have been copied before. -/
def once (uid : Nat) (make : StateM Copying FromElement) : StateM Copying FromElement := do
  match (← get).copied.find? fun known => known.uid == uid with
  | some known => return known.copy
  | none => make

/-- The copy of an element. -/
def element (rebinding : Rebinding) (marks : Narrowings) : FromElement → StateM Copying FromElement
  | .root binding => once binding.uid (rebinding.fresh marks binding .root)
  | .crossJoin binding => once binding.uid (rebinding.fresh marks binding .crossJoin)
  | .entityJoin binding joinType =>
    once binding.uid (rebinding.fresh marks binding fun copied => .entityJoin copied joinType)
  | .attributeJoin binding source join => once binding.uid do
    let source ← rebinding.element marks source
    rebinding.fresh marks binding fun copied => .attributeJoin copied source join
  | .treated binding wrapped => once binding.uid do
    let wrapped ← rebinding.element marks wrapped
    rebinding.fresh marks binding fun copied => .treated copied wrapped

/-- The traversal that copies elements and infers types again. -/
def traversal (rebinding : Rebinding) (marks : Narrowings) : Traversal (StateM Copying) :=
  { onElement := rebinding.element marks
    adjustExpression := Resolved.Expression.retyped
    adjustSubquery := Resolved.Subquery.retyped
    adjustSelect := Resolved.Select.retyped }

end Rebinding

namespace Query

/-- The copy of a query whose elements are numbered from `nextUid` on. -/
def copy (query : Query) (rebinding : Rebinding) (nextUid : Nat) : Query × Nat :=
  let (select, state) :=
    (query.select.traverse (rebinding.traversal query.narrowings)).run { nextUid }
  (⟨select, state.narrowings⟩, state.nextUid)

end Query
end EntityQuery.Splitting

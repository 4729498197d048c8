/-!
# Readers

A reader takes the characters from where it stands. It either reads a value and stands behind it,
or fails. A failure keeps the characters from where the reader stood when it failed, because the
report of a rejected text points there; a reader that is only tried is set back by the caller.

* `Reader.chain`, `Reader.many`: repetition. Every round of these loops reads at least one
  character, so the length of the text bounds the number of rounds.
-/

namespace EntityQuery.Grammar

/-- What a reader answers. -/
inductive Reply (α : Type) where
  | ok (value : α) (rest : List Char)
  | fail (rest : List Char)

/-- A reader of a value. -/
def Reader (α : Type) := List Char → Reply α

namespace Reader

/-- Reads nothing. -/
def succeed {α : Type} (value : α) : Reader α := fun text => .ok value text

/-- Reads with `reader`, then with the reader of the value. -/
def andThen {α β : Type} (reader : Reader α) (next : α → Reader β) : Reader β := fun text =>
  match reader text with
  | .ok value rest => next value rest
  | .fail rest => .fail rest

instance : Monad Reader where
  pure := succeed
  bind := andThen

/-- Fails where it stands. -/
def fail {α : Type} : Reader α := fun text => .fail text

/-- Fails at an earlier place. -/
def failAt {α : Type} (text : List Char) : Reader α := fun _ => .fail text

/-- Goes back to an earlier place with a value. -/
def backTo {α : Type} (text : List Char) (value : α) : Reader α := fun _ => .ok value text

/-- Reads the value, and is set back if that fails. -/
def restoring {α : Type} (reader : Reader α) : Reader α := fun text =>
  match reader text with
  | .ok value rest => .ok value rest
  | .fail _ => .fail text

/-- Reads the value if it is there. -/
def optional {α : Type} (reader : Reader α) : Reader (Option α) := fun text =>
  match reader text with
  | .ok value rest => .ok (some value) rest
  | .fail _ => .ok none text

/-- Reads the token if it is there, and tells whether it was. -/
def accepts (reader : Reader Unit) : Reader Bool := fun text =>
  match reader text with
  | .ok _ rest => .ok true rest
  | .fail _ => .ok false text

/-- Looks at the text without reading. -/
def look (test : List Char → Bool) : Reader Bool := fun text => .ok (test text) text

/-- At most `rounds` times extends a value as long as `step` offers an extension. -/
def chainUpTo {α : Type} (step : α → Reader (Option α)) : Nat → α → Reader α
  | 0, value => succeed value
  | rounds + 1, value => do
    match ← step value with
    | some next => chainUpTo step rounds next
    | none => return value

/-- Extends a value as long as `step` offers an extension. -/
def chain {α : Type} (step : α → Reader (Option α)) (value : α) : Reader α := fun text =>
  chainUpTo step (text.length + 1) value text

/-- At most `rounds` values, as long as `item` offers one. -/
def manyUpTo {α : Type} (item : Reader (Option α)) : Nat → Reader (List α)
  | 0 => succeed []
  | rounds + 1 => do
    match ← item with
    | some value =>
      let values ← manyUpTo item rounds
      return value :: values
    | none => return []

/-- The values that `item` offers, as long as it does. -/
def many {α : Type} (item : Reader (Option α)) : Reader (List α) := fun text =>
  manyUpTo item (text.length + 1) text

/-- At least one item, with separators between them. -/
def separated {α : Type} (separator : Reader Unit) (item : Reader α) : Reader (List α) := do
  let first ← item
  let others ← many do
    if ← accepts separator then
      let value ← item
      return some value
    else return none
  return first :: others

@[simp] theorem pure_apply {α : Type} (value : α) (text : List Char) :
    (pure value : Reader α) text = .ok value text := rfl

theorem bind_apply {α β : Type} (reader : Reader α) (next : α → Reader β) (text : List Char) :
    (reader >>= next) text =
      match reader text with
      | .ok value rest => next value rest
      | .fail rest => .fail rest := rfl

end Reader
end EntityQuery.Grammar

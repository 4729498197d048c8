/-!
# Lists with a key

A table whose order matters is a list with at most one entry per key. Inserting under a key that
is already present replaces the entry where it stands.
-/

namespace EntityQuery.Keyed

/-- The first entry with the key. -/
def find? {α : Type} (key : α → String) (name : String) (entries : List α) : Option α :=
  entries.find? fun entry => key entry == name

/-- Some entry has the key. -/
def contains {α : Type} (key : α → String) (name : String) (entries : List α) : Bool :=
  (find? key name entries).isSome

/-- The entry under its key: in place of an entry with that key, else at the end. -/
def insert {α : Type} (key : α → String) (entry : α) : List α → List α
  | [] => [entry]
  | other :: entries =>
    if key other == key entry then entry :: entries else other :: insert key entry entries

/-- The table of entries inserted one after the other. -/
def ofList {α : Type} (key : α → String) (entries : List α) : List α :=
  entries.foldl (fun table entry => insert key entry table) []

@[simp] theorem find?_nil {α : Type} (key : α → String) (name : String) :
    find? key name [] = none := rfl

theorem find?_cons {α : Type} (key : α → String) (name : String) (entry : α) (entries : List α) :
    find? key name (entry :: entries) =
      if key entry == name then some entry else find? key name entries := by
  simp only [find?, List.find?_cons]
  split <;> simp_all

theorem find?_key {α : Type} {key : α → String} {name : String} {entries : List α} {entry : α}
    (h : find? key name entries = some entry) : key entry = name := by
  have := List.find?_some h
  simpa using this

theorem find?_mem {α : Type} {key : α → String} {name : String} {entries : List α} {entry : α}
    (h : find? key name entries = some entry) : entry ∈ entries :=
  List.mem_of_find?_eq_some h

theorem find?_insert {α : Type} (key : α → String) (name : String) (entry : α)
    (entries : List α) :
    find? key name (insert key entry entries) =
      if key entry == name then some entry else find? key name entries := by
  induction entries with
  | nil => simp [insert, find?_cons]
  | cons other entries ih =>
    unfold insert
    split
    · rename_i hother
      rw [find?_cons, find?_cons, eq_of_beq hother]
      split <;> rfl
    · rename_i hother
      rw [find?_cons, find?_cons, ih]
      split
      · rename_i hname
        rw [if_neg]
        intro hentry
        rw [eq_of_beq hname, eq_of_beq hentry, beq_self_eq_true] at hother
        exact hother rfl
      · rfl

end EntityQuery.Keyed

import EntityQuery.Interpretation.Fault
import EntityQuery.Resolved.Tree

/-!
# Open spaces

A space of a from clause is open while its query is read: its root is set once, before any join,
and joins may be added as long as the clause is open. The from clauses of nested queries are levels;
the level of the outermost query is zero.

* `OpenSpace`: a space that is being filled.
* `Levels`: the open from clauses; `Levels.update`, `Levels.spaceOf?`, `Levels.close`.
-/

namespace EntityQuery.Interpretation

/-- A space that may lack its root; only one with a root has joins. -/
inductive OpenSpace where
  | vacant
  | rooted (root : FromElement) (joins : List Resolved.Join)

namespace OpenSpace

def root? : OpenSpace → Option FromElement
  | vacant => none
  | rooted root _ => some root

/-- The root and the joined elements. -/
def elements : OpenSpace → List FromElement
  | vacant => []
  | rooted root joins => root :: joins.map Resolved.Join.element

def contains (space : OpenSpace) (uid : Nat) : Bool :=
  space.elements.any fun element => element.uid == uid

def setRoot (space : OpenSpace) (element : FromElement) : Except Fault OpenSpace :=
  match space with
  | vacant => .ok (.rooted element [])
  | rooted root _ => .error (.rootPresent root element)

def addJoin (space : OpenSpace) (element : FromElement) : Except Fault OpenSpace :=
  match space with
  | vacant => .error (.joinWithoutRoot element)
  | rooted root joins => .ok (.rooted root (joins ++ [.mk element none]))

/-- The joins with a restriction on the first one of an element. -/
def restrictJoins (uid : Nat) (restriction : Resolved.Predicate) :
    List Resolved.Join → List Resolved.Join
  | [] => []
  | join :: joins =>
    if join.element.uid == uid then .mk join.element (some restriction) :: joins
    else join :: restrictJoins uid restriction joins

/-- Sets the restriction of the join of an element; without such a join nothing changes. -/
def restrict (space : OpenSpace) (uid : Nat) (restriction : Resolved.Predicate) : OpenSpace :=
  match space with
  | vacant => .vacant
  | rooted root joins => .rooted root (restrictJoins uid restriction joins)

/-- The finished space. -/
def close : OpenSpace → Except Fault Resolved.Space
  | vacant => .error .spaceWithoutRoot
  | rooted root joins => .ok (.mk root joins)

end OpenSpace

/-- The place of an open space: the level of its from clause and its position there. -/
structure SpaceId where
  level : Nat
  index : Nat
  deriving DecidableEq, Repr

/-- The open from clauses, the innermost one first. -/
abbrev Levels := List (List OpenSpace)

namespace Levels

/-- The open space at a place. The level of a from clause is the number of clauses below it. -/
def space? : Levels → SpaceId → Option OpenSpace
  | [], _ => none
  | spaces :: below, id =>
    if below.length = id.level then spaces[id.index]? else space? below id

/-- Opens a space in the innermost from clause. -/
def openSpace : Levels → Except Fault (SpaceId × Levels)
  | [] => .error .noOpenClause
  | spaces :: below => .ok (⟨below.length, spaces.length⟩, (spaces ++ [.vacant]) :: below)

/-- Changes an open space. -/
def update (change : OpenSpace → Except Fault OpenSpace) : Levels → SpaceId → Except Fault Levels
  | [], _ => .error .unknownSpace
  | spaces :: below, id =>
    if below.length = id.level then
      match spaces[id.index]? with
      | none => .error .unknownSpace
      | some space => (change space).map fun space => spaces.set id.index space :: below
    else (update change below id).map fun below => spaces :: below

/-- The root of the first space of the innermost from clause. -/
def firstRoot? : Levels → Option FromElement
  | [] => none
  | spaces :: _ => spaces.head?.bind OpenSpace.root?

/-- The place of the space that holds the element of a number, the innermost from clause first. -/
def spaceOf? : Levels → Nat → Option SpaceId
  | [], _ => none
  | spaces :: below, uid =>
    match spaces.findIdx? fun space => space.contains uid with
    | some index => some ⟨below.length, index⟩
    | none => spaceOf? below uid

/-- The finished spaces of a from clause. -/
def close (spaces : List OpenSpace) : Except Fault (List Resolved.Space) :=
  spaces.mapM OpenSpace.close

end Levels
end EntityQuery.Interpretation

import EntityQuery.Phrase.Tree

/-!
# Phrases with other variables

The names in a phrase that may be variables are those that are declared, by a root, by a join or by
a selected expression, and those that a path begins with, which are looked up. Renaming gives them
other names, wherever they occur, and leaves all other names.

* `Statement.occurrences`: the declarations and uses of names in a statement.
* `Statement.variables`, `Statement.names`: the names that are declared, and all of them.
* `Statement.renamed`: the statement with other names.
-/

namespace EntityQuery

/-- The path with another name at its beginning. -/
def DottedName.renamed (rename : String → String) : DottedName → DottedName
  | ⟨[]⟩ => ⟨[]⟩
  | ⟨first :: names⟩ => ⟨rename first :: names⟩

namespace DottedName

theorem renamed_of_parts {path : DottedName} {first : String} {names : List String}
    (hparts : path.parts = first :: names) (rename : String → String) :
    path.renamed rename = ⟨rename first :: names⟩ := by
  obtain ⟨parts⟩ := path
  cases hparts
  rfl

theorem renamed_of_nil {path : DottedName} (hparts : path.parts = [])
    (rename : String → String) : path.renamed rename = path := by
  obtain ⟨parts⟩ := path
  cases hparts
  rfl

theorem getLast?_renamed {path : DottedName} (hpath : path.parts.dropLast ≠ [])
    (rename : String → String) :
    (path.renamed rename).parts.getLast? = path.parts.getLast? := by
  obtain ⟨parts⟩ := path
  match parts with
  | [] => rfl
  | [_] => exact absurd rfl hpath
  | _ :: second :: names => rfl

/-- The path without its last part, which another name may begin. -/
theorem dropLast_renamed (path : DottedName) (rename : String → String) :
    (path.renamed rename).parts.dropLast
      = ((DottedName.mk path.parts.dropLast).renamed rename).parts := by
  obtain ⟨parts⟩ := path
  match parts with
  | [] => rfl
  | [_] => rfl
  | _ :: _ :: _ => rfl

@[simp] theorem isEmpty_dropLast_renamed (path : DottedName) (rename : String → String) :
    (path.renamed rename).parts.dropLast.isEmpty = path.parts.dropLast.isEmpty := by
  obtain ⟨parts⟩ := path
  match parts with
  | [] => rfl
  | [_] => rfl
  | _ :: _ :: _ => rfl

theorem head?_dropLast {path : DottedName} (hpath : path.parts.dropLast ≠ []) :
    path.parts.dropLast.head? = path.parts.head? := by
  obtain ⟨parts⟩ := path
  match parts with
  | [] => rfl
  | [_] => exact absurd rfl hpath
  | _ :: _ :: _ => rfl

end DottedName

namespace Phrase

/-! ## Names that occur -/

/-- A name where it is declared or where it is used. -/
inductive Occurrence where
  | declared (name : String)
  | used (name : String)
  deriving DecidableEq, Repr

namespace Occurrence

def name : Occurrence → String
  | declared name => name
  | used name => name

def declared? : Occurrence → Option String
  | declared name => some name
  | used _ => none

end Occurrence

/-- The name that a path begins with. -/
def pathOccurrences (path : DottedName) : List Occurrence := path.parts.head?.toList.map .used

/-- The variable that is declared, if there is one. -/
def aliasOccurrences (alias? : Option String) : List Occurrence := alias?.toList.map .declared

mutual

def Expression.occurrences : Expression → List Occurrence
  | .literal _ => []
  | .parameter _ => []
  | .path path => pathOccurrences path
  | .indexed base index _ => pathOccurrences base ++ index.occurrences
  | .treated base _ _ => pathOccurrences base
  | .mapFunction _ argument => pathOccurrences argument
  | .arithmetic _ operands => expressionsOccurrences operands
  | .concatenation operands => expressionsOccurrences operands
  | .unary _ operand => operand.occurrences
  | .grouped inner => inner.occurrences
  | .call _ _ _ _ arguments => expressionsOccurrences arguments
  | .simpleCase operand whens otherwise =>
    operand.occurrences ++ simpleWhensOccurrences whens ++ optionalOccurrences otherwise
  | .searchedCase whens otherwise =>
    searchedWhensOccurrences whens ++ optionalOccurrences otherwise
  | .subquery query => query.occurrences

def expressionsOccurrences : List Expression → List Occurrence
  | [] => []
  | first :: rest => first.occurrences ++ expressionsOccurrences rest

def optionalOccurrences : Option Expression → List Occurrence
  | none => []
  | some written => written.occurrences

def SimpleWhen.occurrences : SimpleWhen → List Occurrence
  | .mk value result => value.occurrences ++ result.occurrences

def simpleWhensOccurrences : List SimpleWhen → List Occurrence
  | [] => []
  | first :: rest => first.occurrences ++ simpleWhensOccurrences rest

def SearchedWhen.occurrences : SearchedWhen → List Occurrence
  | .mk condition result => condition.occurrences ++ result.occurrences

def searchedWhensOccurrences : List SearchedWhen → List Occurrence
  | [] => []
  | first :: rest => first.occurrences ++ searchedWhensOccurrences rest

def Predicate.occurrences : Predicate → List Occurrence
  | .and left right => left.occurrences ++ right.occurrences
  | .or left right => left.occurrences ++ right.occurrences
  | .not inner => inner.occurrences
  | .grouped inner => inner.occurrences
  | .comparison _ left right => left.occurrences ++ right.occurrences
  | .between tested lower upper _ =>
    tested.occurrences ++ lower.occurrences ++ upper.occurrences
  | .like matched pattern escape _ =>
    matched.occurrences ++ pattern.occurrences ++ optionalOccurrences escape
  | .inList tested items _ => tested.occurrences ++ expressionsOccurrences items
  | .inSubquery tested operand _ => tested.occurrences ++ operand.occurrences
  | .isNull tested _ => tested.occurrences
  | .isEmpty tested _ => tested.occurrences
  | .memberOf element collection _ => element.occurrences ++ collection.occurrences
  | .existence operand _ => operand.occurrences

def restrictionOccurrences : Option Predicate → List Occurrence
  | none => []
  | some written => written.occurrences

def SelectExpression.occurrences : SelectExpression → List Occurrence
  | .instantiation _ arguments => argumentsOccurrences arguments
  | .object name => [.used name]
  | .expression written => written.occurrences

/-- The aliases of the arguments of an instantiation are no variables. -/
def argumentsOccurrences : List SelectItem → List Occurrence
  | [] => []
  | .mk written _ :: rest => written.occurrences ++ argumentsOccurrences rest

def selectionsOccurrences : List SelectItem → List Occurrence
  | [] => []
  | .mk written alias? :: rest =>
    aliasOccurrences alias? ++ written.occurrences ++ selectionsOccurrences rest

def clauseOccurrences : Option SelectClause → List Occurrence
  | none => []
  | some (.mk _ items) => selectionsOccurrences items

def Join.occurrences : Join → List Occurrence
  | .cross root => aliasOccurrences root.alias?
  | .collection path alias? => pathOccurrences path ++ aliasOccurrences alias?
  | .qualified _ _ target alias? condition =>
    pathOccurrences target.path ++ aliasOccurrences alias? ++ restrictionOccurrences condition

def joinsOccurrences : List Join → List Occurrence
  | [] => []
  | first :: rest => first.occurrences ++ joinsOccurrences rest

def Space.occurrences : Space → List Occurrence
  | .mk root joins => aliasOccurrences root.alias? ++ joinsOccurrences joins

def spacesOccurrences : List Space → List Occurrence
  | [] => []
  | first :: rest => first.occurrences ++ spacesOccurrences rest

def SortItem.occurrences : SortItem → List Occurrence
  | .mk written _ _ => written.occurrences

def sortItemsOccurrences : List SortItem → List Occurrence
  | [] => []
  | first :: rest => first.occurrences ++ sortItemsOccurrences rest

def orderOccurrences : Option (List SortItem) → List Occurrence
  | none => []
  | some items => sortItemsOccurrences items

def Query.occurrences : Query → List Occurrence
  | .mk select spaces condition order limit offset =>
    clauseOccurrences select ++ spacesOccurrences spaces ++ restrictionOccurrences condition
      ++ orderOccurrences order ++ optionalOccurrences limit ++ optionalOccurrences offset

end

def Assignment.occurrences (written : Assignment) : List Occurrence :=
  pathOccurrences written.path ++ written.value.occurrences

/-- The declarations and uses of names in a statement. -/
def Statement.occurrences : Statement → List Occurrence
  | .select query => query.occurrences
  | .update target assignments condition =>
    aliasOccurrences target.alias? ++ assignments.flatMap Assignment.occurrences
      ++ restrictionOccurrences condition
  | .delete target condition => aliasOccurrences target.alias? ++ restrictionOccurrences condition
  | .insert _ stateFields query => stateFields.flatMap pathOccurrences ++ query.occurrences

/-- The identification variables and the result variables of a statement. -/
def Statement.variables (written : Statement) : List String :=
  written.occurrences.filterMap Occurrence.declared?

/-- The names in a statement that may be variables. -/
def Statement.names (written : Statement) : List String :=
  written.occurrences.map Occurrence.name

/-! ## Other names -/

section

variable (rename : String → String)

/-- The root with another variable. -/
def Root.renamed (root : Root) : Root := { root with alias? := root.alias?.map rename }

def JoinTarget.renamed : JoinTarget → JoinTarget
  | .plain path => .plain (path.renamed rename)
  | .treated path entity => .treated (path.renamed rename) entity

mutual

def Expression.renamed : Expression → Expression
  | .literal token => .literal token
  | .parameter written => .parameter written
  | .path path => .path (path.renamed rename)
  | .indexed base index remainder => .indexed (base.renamed rename) index.renamed remainder
  | .treated base entity remainder => .treated (base.renamed rename) entity remainder
  | .mapFunction function argument => .mapFunction function (argument.renamed rename)
  | .arithmetic operator operands => .arithmetic operator (expressionsRenamed operands)
  | .concatenation operands => .concatenation (expressionsRenamed operands)
  | .unary sign operand => .unary sign operand.renamed
  | .grouped inner => .grouped inner.renamed
  | .call name generic distinct star arguments =>
    .call name generic distinct star (expressionsRenamed arguments)
  | .simpleCase operand whens otherwise =>
    .simpleCase operand.renamed (simpleWhensRenamed whens) (optionalRenamed otherwise)
  | .searchedCase whens otherwise =>
    .searchedCase (searchedWhensRenamed whens) (optionalRenamed otherwise)
  | .subquery query => .subquery query.renamed

def expressionsRenamed : List Expression → List Expression
  | [] => []
  | first :: rest => first.renamed :: expressionsRenamed rest

def optionalRenamed : Option Expression → Option Expression
  | none => none
  | some written => some written.renamed

def SimpleWhen.renamed : SimpleWhen → SimpleWhen
  | .mk value result => .mk value.renamed result.renamed

def simpleWhensRenamed : List SimpleWhen → List SimpleWhen
  | [] => []
  | first :: rest => first.renamed :: simpleWhensRenamed rest

def SearchedWhen.renamed : SearchedWhen → SearchedWhen
  | .mk condition result => .mk condition.renamed result.renamed

def searchedWhensRenamed : List SearchedWhen → List SearchedWhen
  | [] => []
  | first :: rest => first.renamed :: searchedWhensRenamed rest

def Predicate.renamed : Predicate → Predicate
  | .and left right => .and left.renamed right.renamed
  | .or left right => .or left.renamed right.renamed
  | .not inner => .not inner.renamed
  | .grouped inner => .grouped inner.renamed
  | .comparison operator left right => .comparison operator left.renamed right.renamed
  | .between tested lower upper negated =>
    .between tested.renamed lower.renamed upper.renamed negated
  | .like matched pattern escape negated =>
    .like matched.renamed pattern.renamed (optionalRenamed escape) negated
  | .inList tested items negated => .inList tested.renamed (expressionsRenamed items) negated
  | .inSubquery tested operand negated => .inSubquery tested.renamed operand.renamed negated
  | .isNull tested negated => .isNull tested.renamed negated
  | .isEmpty tested negated => .isEmpty tested.renamed negated
  | .memberOf element collection negated => .memberOf element.renamed collection.renamed negated
  | .existence operand negated => .existence operand.renamed negated

def restrictionRenamed : Option Predicate → Option Predicate
  | none => none
  | some written => some written.renamed

def SelectExpression.renamed : SelectExpression → SelectExpression
  | .instantiation target arguments => .instantiation target (argumentsRenamed arguments)
  | .object name => .object (rename name)
  | .expression written => .expression written.renamed

def argumentsRenamed : List SelectItem → List SelectItem
  | [] => []
  | .mk written alias? :: rest => .mk written.renamed alias? :: argumentsRenamed rest

def selectionsRenamed : List SelectItem → List SelectItem
  | [] => []
  | .mk written alias? :: rest => .mk written.renamed (alias?.map rename) :: selectionsRenamed rest

def clauseRenamed : Option SelectClause → Option SelectClause
  | none => none
  | some (.mk distinct items) => some (.mk distinct (selectionsRenamed items))

def Join.renamed : Join → Join
  | .cross root => .cross (root.renamed rename)
  | .collection path alias? => .collection (path.renamed rename) (alias?.map rename)
  | .qualified type fetch target alias? condition =>
    .qualified type fetch (target.renamed rename) (alias?.map rename)
      (restrictionRenamed condition)

def joinsRenamed : List Join → List Join
  | [] => []
  | first :: rest => first.renamed :: joinsRenamed rest

def Space.renamed : Space → Space
  | .mk root joins => .mk (root.renamed rename) (joinsRenamed joins)

def spacesRenamed : List Space → List Space
  | [] => []
  | first :: rest => first.renamed :: spacesRenamed rest

def SortItem.renamed : SortItem → SortItem
  | .mk written collation ordering => .mk written.renamed collation ordering

def sortItemsRenamed : List SortItem → List SortItem
  | [] => []
  | first :: rest => first.renamed :: sortItemsRenamed rest

def orderRenamed : Option (List SortItem) → Option (List SortItem)
  | none => none
  | some items => some (sortItemsRenamed items)

def Query.renamed : Query → Query
  | .mk select spaces condition order limit offset =>
    .mk (clauseRenamed select) (spacesRenamed spaces) (restrictionRenamed condition)
      (orderRenamed order) (optionalRenamed limit) (optionalRenamed offset)

end

def Assignment.renamed (written : Assignment) : Assignment :=
  ⟨written.path.renamed rename, written.value.renamed rename⟩

/-- The statement with other names. -/
def Statement.renamed : Statement → Statement
  | .select query => .select (query.renamed rename)
  | .update target assignments condition =>
    .update (target.renamed rename) (assignments.map (Assignment.renamed rename))
      (restrictionRenamed rename condition)
  | .delete target condition =>
    .delete (target.renamed rename) (restrictionRenamed rename condition)
  | .insert target stateFields query =>
    .insert target (stateFields.map (DottedName.renamed rename)) (query.renamed rename)

end

end Phrase
end EntityQuery

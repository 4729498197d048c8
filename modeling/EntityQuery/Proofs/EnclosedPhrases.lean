import EntityQuery.Interpretation.Statement

/-!
# Expressions put in parentheses

The enclosures of a phrase are the phrases that differ from it in a single expression, which they
have in parentheses. That expression may stand anywhere and at any depth, apart from four places
where the form of what is written decides what it means: an item of an order that is nothing but the
name of a result variable of its query, a path as the argument of the index of a join, and a nested
query as the operand of an existence or on the right of a membership.

* `Statement.enclosures`, `Query.enclosures`, `Predicate.enclosures`, `Expression.enclosures`.
* `resultNames`: the result variables that an item of an order may name.
-/

namespace EntityQuery.Phrase

/-- The result variables of a select clause. -/
def resultNames : Option SelectClause → List String
  | none => []
  | some (.mk _ items) => items.filterMap SelectItem.alias?

/-- Whether an expression is nothing but one of some names. -/
def Expression.isOneOf (names : List String) : Expression → Bool
  | .path dotted => dotted.isSimple && names.contains dotted.first
  | _ => false

/-- Whether a call asks for the index of a join, with a path that leads to the join. -/
def indexesJoin (name : String) (generic : Bool) : List Expression → Bool
  | [.path _] => !generic && CollectionFunction.ofName? name = some .index
  | _ => false

mutual

def Expression.enclosures (written : Expression) : List Expression :=
  .grouped written ::
    match written with
    | .indexed base index remainder => index.enclosures.map (.indexed base · remainder)
    | .arithmetic operator operands => (expressionsEnclosures operands).map (.arithmetic operator)
    | .concatenation operands => (expressionsEnclosures operands).map .concatenation
    | .unary sign operand => operand.enclosures.map (.unary sign)
    | .grouped inner => inner.enclosures.map .grouped
    | .call name generic distinct star arguments =>
      if indexesJoin name generic arguments then []
      else (expressionsEnclosures arguments).map (.call name generic distinct star)
    | .simpleCase operand whens otherwise =>
      operand.enclosures.map (.simpleCase · whens otherwise)
        ++ (simpleWhensEnclosures whens).map (.simpleCase operand · otherwise)
        ++ (optionalEnclosures otherwise).map (.simpleCase operand whens)
    | .searchedCase whens otherwise =>
      (searchedWhensEnclosures whens).map (.searchedCase · otherwise)
        ++ (optionalEnclosures otherwise).map (.searchedCase whens)
    | .subquery query => query.enclosures.map .subquery
    | .literal _ | .parameter _ | .path _ | .treated _ _ _ | .mapFunction _ _ => []

def expressionsEnclosures : List Expression → List (List Expression)
  | [] => []
  | first :: rest =>
    first.enclosures.map (· :: rest) ++ (expressionsEnclosures rest).map (first :: ·)

def optionalEnclosures : Option Expression → List (Option Expression)
  | none => []
  | some written => written.enclosures.map some

def SimpleWhen.enclosures : SimpleWhen → List SimpleWhen
  | .mk value result =>
    value.enclosures.map (.mk · result) ++ result.enclosures.map (.mk value)

def simpleWhensEnclosures : List SimpleWhen → List (List SimpleWhen)
  | [] => []
  | first :: rest =>
    first.enclosures.map (· :: rest) ++ (simpleWhensEnclosures rest).map (first :: ·)

def SearchedWhen.enclosures : SearchedWhen → List SearchedWhen
  | .mk condition result =>
    condition.enclosures.map (.mk · result) ++ result.enclosures.map (.mk condition)

def searchedWhensEnclosures : List SearchedWhen → List (List SearchedWhen)
  | [] => []
  | first :: rest =>
    first.enclosures.map (· :: rest) ++ (searchedWhensEnclosures rest).map (first :: ·)

def Predicate.enclosures : Predicate → List Predicate
  | .and left right => left.enclosures.map (.and · right) ++ right.enclosures.map (.and left)
  | .or left right => left.enclosures.map (.or · right) ++ right.enclosures.map (.or left)
  | .not inner => inner.enclosures.map .not
  | .grouped inner => inner.enclosures.map .grouped
  | .comparison operator left right =>
    left.enclosures.map (.comparison operator · right)
      ++ right.enclosures.map (.comparison operator left)
  | .between tested lower upper negated =>
    tested.enclosures.map (.between · lower upper negated)
      ++ lower.enclosures.map (.between tested · upper negated)
      ++ upper.enclosures.map (.between tested lower · negated)
  | .like matched pattern escape negated =>
    matched.enclosures.map (.like · pattern escape negated)
      ++ pattern.enclosures.map (.like matched · escape negated)
      ++ (optionalEnclosures escape).map (.like matched pattern · negated)
  | .inList tested items negated =>
    tested.enclosures.map (.inList · items negated)
      ++ (expressionsEnclosures items).map (.inList tested · negated)
  | .inSubquery tested (.subquery query) negated =>
    tested.enclosures.map (.inSubquery · (.subquery query) negated)
      ++ query.enclosures.map fun query => .inSubquery tested (.subquery query) negated
  | .inSubquery tested operand negated =>
    tested.enclosures.map (.inSubquery · operand negated)
      ++ operand.enclosures.map (.inSubquery tested · negated)
  | .isNull tested negated => tested.enclosures.map (.isNull · negated)
  | .isEmpty tested negated => tested.enclosures.map (.isEmpty · negated)
  | .memberOf element collection negated =>
    element.enclosures.map (.memberOf · collection negated)
      ++ collection.enclosures.map (.memberOf element · negated)
  | .existence (.subquery query) negated =>
    query.enclosures.map fun query => .existence (.subquery query) negated
  | .existence operand negated => operand.enclosures.map (.existence · negated)

def restrictionEnclosures : Option Predicate → List (Option Predicate)
  | none => []
  | some written => written.enclosures.map some

def SelectExpression.enclosures : SelectExpression → List SelectExpression
  | .instantiation target arguments =>
    (selectItemsEnclosures arguments).map (.instantiation target)
  | .object _ => []
  | .expression written => written.enclosures.map .expression

def selectItemsEnclosures : List SelectItem → List (List SelectItem)
  | [] => []
  | .mk written alias? :: rest =>
    written.enclosures.map (.mk · alias? :: rest)
      ++ (selectItemsEnclosures rest).map (.mk written alias? :: ·)

def selectClauseEnclosures : Option SelectClause → List (Option SelectClause)
  | none => []
  | some (.mk distinct items) =>
    (selectItemsEnclosures items).map fun items => some (.mk distinct items)

def Join.enclosures : Join → List Join
  | .cross _ => []
  | .collection _ _ => []
  | .qualified type fetch target alias? condition =>
    (restrictionEnclosures condition).map (.qualified type fetch target alias?)

def joinsEnclosures : List Join → List (List Join)
  | [] => []
  | first :: rest => first.enclosures.map (· :: rest) ++ (joinsEnclosures rest).map (first :: ·)

def Space.enclosures : Space → List Space
  | .mk root joins => (joinsEnclosures joins).map (.mk root)

def spacesEnclosures : List Space → List (List Space)
  | [] => []
  | first :: rest => first.enclosures.map (· :: rest) ++ (spacesEnclosures rest).map (first :: ·)

/-- The names are those of the result variables of the query. -/
def sortItemsEnclosures (names : List String) : List SortItem → List (List SortItem)
  | [] => []
  | .mk written collation ordering :: rest =>
    (if written.isOneOf names then []
      else written.enclosures.map (.mk · collation ordering :: rest))
      ++ (sortItemsEnclosures names rest).map (.mk written collation ordering :: ·)

def orderEnclosures (names : List String) :
    Option (List SortItem) → List (Option (List SortItem))
  | none => []
  | some items => (sortItemsEnclosures names items).map some

def Query.enclosures : Query → List Query
  | .mk select spaces condition order limit offset =>
    (selectClauseEnclosures select).map (.mk · spaces condition order limit offset)
      ++ (spacesEnclosures spaces).map (.mk select · condition order limit offset)
      ++ (restrictionEnclosures condition).map (.mk select spaces · order limit offset)
      ++ (orderEnclosures (resultNames select) order).map
        (.mk select spaces condition · limit offset)
      ++ (optionalEnclosures limit).map (.mk select spaces condition order · offset)
      ++ (optionalEnclosures offset).map (.mk select spaces condition order limit)

end

def assignmentsEnclosures : List Assignment → List (List Assignment)
  | [] => []
  | ⟨path, value⟩ :: rest =>
    value.enclosures.map (⟨path, ·⟩ :: rest)
      ++ (assignmentsEnclosures rest).map (⟨path, value⟩ :: ·)

/-- The statements with one expression of a statement in parentheses. -/
def Statement.enclosures : Statement → List Statement
  | .select query => query.enclosures.map .select
  | .update target assignments condition =>
    (assignmentsEnclosures assignments).map (.update target · condition)
      ++ (restrictionEnclosures condition).map (.update target assignments)
  | .delete target condition => (restrictionEnclosures condition).map (.delete target)
  | .insert target stateFields query => query.enclosures.map (.insert target stateFields)

/-! ## Forms that parentheses leave -/

/-- What holds something in parentheses is no path. -/
theorem enclosures_ne_path {written other : Expression} (h : other ∈ written.enclosures)
    (dotted : DottedName) : other ≠ .path dotted := by
  rintro rfl
  cases written <;> simp [Expression.enclosures] at h

/-- Only a nested query has an enclosure that is one. -/
theorem enclosures_ne_subquery {written other : Expression}
    (hwritten : ∀ nested, written ≠ .subquery nested) (h : other ∈ written.enclosures)
    (nested : Query) : other ≠ .subquery nested := by
  rintro rfl
  cases written with
  | subquery query => exact hwritten query rfl
  | _ => simp [Expression.enclosures] at h

theorem expressionsEnclosures_length : ∀ {written others : List Expression},
    others ∈ expressionsEnclosures written → others.length = written.length
  | [], _, h => by simp [expressionsEnclosures] at h
  | first :: rest, _, h => by
    simp only [expressionsEnclosures, List.mem_append, List.mem_map] at h
    obtain ⟨other, -, rfl⟩ | ⟨others, hothers, rfl⟩ := h
    · rfl
    · simp only [List.length_cons, expressionsEnclosures_length hothers]

theorem optionalEnclosures_isSome {written other : Option Expression}
    (h : other ∈ optionalEnclosures written) : other.isSome = written.isSome := by
  cases written with
  | none => simp [optionalEnclosures] at h
  | some written =>
    simp only [optionalEnclosures, List.mem_map] at h
    obtain ⟨other, -, rfl⟩ := h
    rfl

/-- The variables of selected expressions stay at their places. -/
theorem selectItemsEnclosures_aliases : ∀ {written others : List SelectItem},
    others ∈ selectItemsEnclosures written →
      others.map SelectItem.alias? = written.map SelectItem.alias?
  | [], _, h => by simp [selectItemsEnclosures] at h
  | .mk written alias? :: rest, _, h => by
    simp only [selectItemsEnclosures, List.mem_append, List.mem_map] at h
    obtain ⟨other, -, rfl⟩ | ⟨others, hothers, rfl⟩ := h
    · rfl
    · simp only [List.map_cons, selectItemsEnclosures_aliases hothers]

end EntityQuery.Phrase

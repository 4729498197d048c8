import EntityQuery.Phrase.Tree
import EntityQuery.Text.CaseFolding

/-!
# Phrases in small letters

A phrase in small letters is the phrase with every text in it in small letters: names, aliases, the
texts of literals and the words of clauses. All else stays, such as operators, kinds of literals,
targets and numbers, so two phrases that are the same in small letters differ in the case of letters
only.

* `Statement.lowered`, `Query.lowered`, `Expression.lowered`.
* `expressionsLowered`, `joinsLowered`, …: lists member by member.
-/

namespace EntityQuery

def DottedName.lowered (name : DottedName) : DottedName := ⟨name.parts.map Text.lowered⟩

namespace Phrase

def Literal.lowered (literal : Literal) : Literal := ⟨literal.kind, Text.lowered literal.text⟩

def Parameter.lowered : Parameter → Parameter
  | .named name => .named (Text.lowered name)
  | .positional position => .positional position

def Root.lowered (root : Root) : Root := ⟨root.entity.lowered, root.alias?.map Text.lowered⟩

def Target.lowered : Target → Target
  | .list => .list
  | .map => .map
  | .hostClass name => .hostClass name.lowered

def JoinTarget.lowered : JoinTarget → JoinTarget
  | .plain path => .plain path.lowered
  | .treated path entity => .treated path.lowered entity.lowered

mutual

/-- The expression in small letters. -/
def Expression.lowered : Expression → Expression
  | .literal literal => .literal literal.lowered
  | .parameter parameter => .parameter parameter.lowered
  | .path path => .path path.lowered
  | .indexed base index remainder =>
    .indexed base.lowered index.lowered (remainder.map DottedName.lowered)
  | .treated base entity remainder =>
    .treated base.lowered entity.lowered (remainder.map DottedName.lowered)
  | .mapFunction function argument => .mapFunction function argument.lowered
  | .arithmetic operator operands => .arithmetic operator (expressionsLowered operands)
  | .concatenation operands => .concatenation (expressionsLowered operands)
  | .unary sign operand => .unary sign operand.lowered
  | .grouped inner => .grouped inner.lowered
  | .call name generic distinct star arguments =>
    .call (Text.lowered name) generic distinct star (expressionsLowered arguments)
  | .simpleCase operand whens otherwise =>
    .simpleCase operand.lowered (simpleWhensLowered whens) (optionalLowered otherwise)
  | .searchedCase whens otherwise =>
    .searchedCase (searchedWhensLowered whens) (optionalLowered otherwise)
  | .subquery query => .subquery query.lowered

def expressionsLowered : List Expression → List Expression
  | [] => []
  | first :: rest => first.lowered :: expressionsLowered rest

def optionalLowered : Option Expression → Option Expression
  | none => none
  | some expression => some expression.lowered

def SimpleWhen.lowered : SimpleWhen → SimpleWhen
  | .mk value result => .mk value.lowered result.lowered

def simpleWhensLowered : List SimpleWhen → List SimpleWhen
  | [] => []
  | first :: rest => first.lowered :: simpleWhensLowered rest

def SearchedWhen.lowered : SearchedWhen → SearchedWhen
  | .mk condition result => .mk condition.lowered result.lowered

def searchedWhensLowered : List SearchedWhen → List SearchedWhen
  | [] => []
  | first :: rest => first.lowered :: searchedWhensLowered rest

/-- The predicate in small letters. -/
def Predicate.lowered : Predicate → Predicate
  | .and left right => .and left.lowered right.lowered
  | .or left right => .or left.lowered right.lowered
  | .not inner => .not inner.lowered
  | .grouped inner => .grouped inner.lowered
  | .comparison operator left right => .comparison operator left.lowered right.lowered
  | .between expression lower upper negated =>
    .between expression.lowered lower.lowered upper.lowered negated
  | .like expression pattern escape negated =>
    .like expression.lowered pattern.lowered (optionalLowered escape) negated
  | .inList expression items negated =>
    .inList expression.lowered (expressionsLowered items) negated
  | .inSubquery expression subquery negated =>
    .inSubquery expression.lowered subquery.lowered negated
  | .isNull expression negated => .isNull expression.lowered negated
  | .isEmpty expression negated => .isEmpty expression.lowered negated
  | .memberOf element collection negated => .memberOf element.lowered collection.lowered negated
  | .existence expression negated => .existence expression.lowered negated

def restrictionLowered : Option Predicate → Option Predicate
  | none => none
  | some predicate => some predicate.lowered

def SelectExpression.lowered : SelectExpression → SelectExpression
  | .instantiation target arguments => .instantiation target.lowered (itemsLowered arguments)
  | .object name => .object (Text.lowered name)
  | .expression expression => .expression expression.lowered

def SelectItem.lowered : SelectItem → SelectItem
  | .mk expression alias? => .mk expression.lowered (alias?.map Text.lowered)

def itemsLowered : List SelectItem → List SelectItem
  | [] => []
  | first :: rest => first.lowered :: itemsLowered rest

def clauseLowered : Option SelectClause → Option SelectClause
  | none => none
  | some (.mk distinct items) => some (.mk distinct (itemsLowered items))

def Join.lowered : Join → Join
  | .cross root => .cross root.lowered
  | .collection path alias? => .collection path.lowered (alias?.map Text.lowered)
  | .qualified type fetch target alias? predicate =>
    .qualified type fetch target.lowered (alias?.map Text.lowered) (restrictionLowered predicate)

def joinsLowered : List Join → List Join
  | [] => []
  | first :: rest => first.lowered :: joinsLowered rest

def Space.lowered : Space → Space
  | .mk root joins => .mk root.lowered (joinsLowered joins)

def spacesLowered : List Space → List Space
  | [] => []
  | first :: rest => first.lowered :: spacesLowered rest

def SortItem.lowered : SortItem → SortItem
  | .mk expression collation ordering =>
    .mk expression.lowered (collation.map Text.lowered) (ordering.map Text.lowered)

def sortItemsLowered : List SortItem → List SortItem
  | [] => []
  | first :: rest => first.lowered :: sortItemsLowered rest

def orderLowered : Option (List SortItem) → Option (List SortItem)
  | none => none
  | some items => some (sortItemsLowered items)

/-- The query in small letters. -/
def Query.lowered : Query → Query
  | .mk select spaces restriction order limit offset =>
    .mk (clauseLowered select) (spacesLowered spaces) (restrictionLowered restriction)
      (orderLowered order) (optionalLowered limit) (optionalLowered offset)

end

def Assignment.lowered (assignment : Assignment) : Assignment :=
  ⟨assignment.path.lowered, assignment.value.lowered⟩

/-- The statement in small letters. -/
def Statement.lowered : Statement → Statement
  | .select query => .select query.lowered
  | .update target assignments restriction =>
    .update target.lowered (assignments.map Assignment.lowered) (restrictionLowered restriction)
  | .delete target restriction => .delete target.lowered (restrictionLowered restriction)
  | .insert target stateFields query =>
    .insert target.lowered (stateFields.map DottedName.lowered) query.lowered

end Phrase
end EntityQuery

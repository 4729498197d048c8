import EntityQuery.Domain.Schema
import EntityQuery.Phrase.Tree
import EntityQuery.Resolved.Catalogue

/-!
# Judgements on phrases

A judgement on a phrase says of every part that is written at any depth what is required of it:
entities that something is narrowed to, calls, roots, joins, result variables and queries. Forms
without a requirement of their own pass it on to their parts. What the strict language rejects can be
seen in the phrase in this way, but for the value of a join that is over no map.

* `Rules`: what is required, part by part.
* `Statement.Meets`, `Query.Meets`, `Predicate.Meets`, `Expression.Meets`: every part meets its
  rule.
* `Rules.Always`, `Statement.meets`: rules that require nothing are met by every statement.
* `Phrase.compliance`: what the strict language requires of each part of a phrase.
* `Phrase.Statement.Compliant`: a statement that contains nothing of what is rejected.
-/

namespace EntityQuery.Phrase

/-- What a judgement requires of the parts of a phrase. -/
structure Rules where
  /-- The name of an entity that a path or a join is narrowed to. -/
  treat : DottedName → Prop := fun _ => True
  /-- The name of a call, with whether it is a generic one. -/
  call : Bool → String → Prop := fun _ _ => True
  /-- The root of a space or the target of a bulk statement. -/
  root : Root → Prop := fun _ => True
  join : Join → Prop := fun _ => True
  /-- The variable of a selected expression. -/
  result : Option String → Prop := fun _ => True
  /-- A query, with whether it is nested in another one. -/
  query : Bool → Query → Prop := fun _ _ => True

/-- The entity that a join is narrowed to meets its rule. -/
def JoinTarget.Meets (rules : Rules) : JoinTarget → Prop
  | .plain _ => True
  | .treated _ entity => rules.treat entity

section

variable (rules : Rules)

mutual

/-- Every part of the expression meets its rule. -/
def Expression.Meets : Expression → Prop
  | .literal _ => True
  | .parameter _ => True
  | .path _ => True
  | .indexed _ index _ => index.Meets
  | .treated _ entity _ => rules.treat entity
  | .mapFunction _ _ => True
  | .arithmetic _ operands => expressionsMeet operands
  | .concatenation operands => expressionsMeet operands
  | .unary _ operand => operand.Meets
  | .grouped inner => inner.Meets
  | .call name generic _ _ arguments => rules.call generic name ∧ expressionsMeet arguments
  | .simpleCase operand whens otherwise =>
    operand.Meets ∧ simpleWhensMeet whens ∧ optionalMeets otherwise
  | .searchedCase whens otherwise => searchedWhensMeet whens ∧ optionalMeets otherwise
  | .subquery query => query.Meets true

def expressionsMeet : List Expression → Prop
  | [] => True
  | first :: rest => first.Meets ∧ expressionsMeet rest

def optionalMeets : Option Expression → Prop
  | none => True
  | some expression => expression.Meets

def SimpleWhen.Meets : SimpleWhen → Prop
  | .mk value result => value.Meets ∧ result.Meets

def simpleWhensMeet : List SimpleWhen → Prop
  | [] => True
  | first :: rest => first.Meets ∧ simpleWhensMeet rest

def SearchedWhen.Meets : SearchedWhen → Prop
  | .mk condition result => condition.Meets ∧ result.Meets

def searchedWhensMeet : List SearchedWhen → Prop
  | [] => True
  | first :: rest => first.Meets ∧ searchedWhensMeet rest

/-- Every part of the predicate meets its rule. -/
def Predicate.Meets : Predicate → Prop
  | .and left right => left.Meets ∧ right.Meets
  | .or left right => left.Meets ∧ right.Meets
  | .not inner => inner.Meets
  | .grouped inner => inner.Meets
  | .comparison _ left right => left.Meets ∧ right.Meets
  | .between expression lower upper _ => expression.Meets ∧ lower.Meets ∧ upper.Meets
  | .like expression pattern escape _ =>
    expression.Meets ∧ pattern.Meets ∧ optionalMeets escape
  | .inList expression items _ => expression.Meets ∧ expressionsMeet items
  | .inSubquery expression subquery _ => expression.Meets ∧ subquery.Meets
  | .isNull expression _ => expression.Meets
  | .isEmpty expression _ => expression.Meets
  | .memberOf element collection _ => element.Meets ∧ collection.Meets
  | .existence expression _ => expression.Meets

def restrictionMeets : Option Predicate → Prop
  | none => True
  | some predicate => predicate.Meets

def SelectExpression.Meets : SelectExpression → Prop
  | .instantiation _ arguments => argumentsMeet arguments
  | .object _ => True
  | .expression expression => expression.Meets

/-- The arguments of an instantiation; their aliases are no result variables. -/
def argumentsMeet : List SelectItem → Prop
  | [] => True
  | .mk expression _ :: rest => expression.Meets ∧ argumentsMeet rest

def selectionsMeet : List SelectItem → Prop
  | [] => True
  | .mk expression alias? :: rest =>
    rules.result alias? ∧ expression.Meets ∧ selectionsMeet rest

def clauseMeets : Option SelectClause → Prop
  | none => True
  | some (.mk _ items) => selectionsMeet items

def Join.Meets : Join → Prop
  | .cross root => rules.join (.cross root)
  | .collection path alias? => rules.join (.collection path alias?)
  | .qualified type fetch target alias? predicate =>
    rules.join (.qualified type fetch target alias? predicate) ∧ target.Meets rules
      ∧ restrictionMeets predicate

def joinsMeet : List Join → Prop
  | [] => True
  | first :: rest => first.Meets ∧ joinsMeet rest

def Space.Meets : Space → Prop
  | .mk root joins => rules.root root ∧ joinsMeet joins

def spacesMeet : List Space → Prop
  | [] => True
  | first :: rest => first.Meets ∧ spacesMeet rest

def SortItem.Meets : SortItem → Prop
  | .mk expression _ _ => expression.Meets

def sortItemsMeet : List SortItem → Prop
  | [] => True
  | first :: rest => first.Meets ∧ sortItemsMeet rest

def orderMeets : Option (List SortItem) → Prop
  | none => True
  | some items => sortItemsMeet items

/-- Every part of the query meets its rule; it may be nested in another one. -/
def Query.Meets (nested : Bool) : Query → Prop
  | .mk select spaces restriction order limit offset =>
    rules.query nested (.mk select spaces restriction order limit offset) ∧ spacesMeet spaces
      ∧ clauseMeets select ∧ restrictionMeets restriction ∧ orderMeets order
      ∧ optionalMeets limit ∧ optionalMeets offset

end

/-- Every part of the statement meets its rule. -/
def Statement.Meets : Statement → Prop
  | .select query => query.Meets rules false
  | .update target assignments restriction =>
    rules.root target ∧ (∀ assignment ∈ assignments, assignment.value.Meets rules)
      ∧ restrictionMeets rules restriction
  | .delete target restriction => rules.root target ∧ restrictionMeets rules restriction
  | .insert target _ query => rules.root ⟨target, none⟩ ∧ query.Meets rules false

end

/-! ## Rules that require nothing -/

/-- The rules hold of every part. -/
structure Rules.Always (rules : Rules) : Prop where
  treat : ∀ name, rules.treat name
  call : ∀ generic name, rules.call generic name
  root : ∀ root, rules.root root
  join : ∀ join, rules.join join
  result : ∀ alias?, rules.result alias?
  query : ∀ nested query, rules.query nested query

section

-- The linter does not see that the members of a mutual block use a hypothesis through each other.
set_option linter.unusedSectionVars false

variable {rules : Rules} (h : rules.Always)
include h

theorem JoinTarget.meets (target : JoinTarget) : target.Meets rules := by
  cases target with
  | plain path => trivial
  | treated path entity => exact h.treat entity

mutual

theorem Expression.meets : ∀ written : Expression, written.Meets rules
  | .literal _ => trivial
  | .parameter _ => trivial
  | .path _ => trivial
  | .indexed _ index _ => index.meets
  | .treated _ entity _ => h.treat entity
  | .mapFunction _ _ => trivial
  | .arithmetic _ operands => expressions_meet operands
  | .concatenation operands => expressions_meet operands
  | .unary _ operand => operand.meets
  | .grouped inner => inner.meets
  | .call name generic _ _ arguments => ⟨h.call generic name, expressions_meet arguments⟩
  | .simpleCase operand whens otherwise =>
    ⟨operand.meets, simpleWhens_meet whens, optional_meets otherwise⟩
  | .searchedCase whens otherwise => ⟨searchedWhens_meet whens, optional_meets otherwise⟩
  | .subquery query => query.meets true

theorem expressions_meet : ∀ written : List Expression, expressionsMeet rules written
  | [] => trivial
  | first :: rest => ⟨first.meets, expressions_meet rest⟩

theorem optional_meets : ∀ written : Option Expression, optionalMeets rules written
  | none => trivial
  | some written => Expression.meets written

theorem simpleWhens_meet : ∀ written : List SimpleWhen, simpleWhensMeet rules written
  | [] => trivial
  | .mk value result :: rest => ⟨⟨value.meets, result.meets⟩, simpleWhens_meet rest⟩

theorem searchedWhens_meet : ∀ written : List SearchedWhen, searchedWhensMeet rules written
  | [] => trivial
  | .mk condition result :: rest => ⟨⟨condition.meets, result.meets⟩, searchedWhens_meet rest⟩

theorem Predicate.meets : ∀ written : Predicate, written.Meets rules
  | .and left right => ⟨left.meets, right.meets⟩
  | .or left right => ⟨left.meets, right.meets⟩
  | .not inner => inner.meets
  | .grouped inner => inner.meets
  | .comparison _ left right => ⟨left.meets, right.meets⟩
  | .between expression lower upper _ => ⟨expression.meets, lower.meets, upper.meets⟩
  | .like expression pattern escape _ => ⟨expression.meets, pattern.meets, optional_meets escape⟩
  | .inList expression items _ => ⟨expression.meets, expressions_meet items⟩
  | .inSubquery expression subquery _ => ⟨expression.meets, subquery.meets⟩
  | .isNull expression _ => expression.meets
  | .isEmpty expression _ => expression.meets
  | .memberOf element collection _ => ⟨element.meets, collection.meets⟩
  | .existence expression _ => expression.meets

theorem restriction_meets : ∀ written : Option Predicate, restrictionMeets rules written
  | none => trivial
  | some written => Predicate.meets written

theorem SelectExpression.meets : ∀ written : SelectExpression, written.Meets rules
  | .instantiation _ items => arguments_meet items
  | .object _ => trivial
  | .expression written => written.meets

theorem arguments_meet : ∀ written : List SelectItem, argumentsMeet rules written
  | [] => trivial
  | .mk expression _ :: rest => ⟨expression.meets, arguments_meet rest⟩

theorem selections_meet : ∀ written : List SelectItem, selectionsMeet rules written
  | [] => trivial
  | .mk expression alias? :: rest => ⟨h.result alias?, expression.meets, selections_meet rest⟩

theorem clause_meets : ∀ written : Option SelectClause, clauseMeets rules written
  | none => trivial
  | some (.mk _ items) => selections_meet items

theorem joins_meet : ∀ written : List Join, joinsMeet rules written
  | [] => trivial
  | .cross root :: rest => ⟨h.join (.cross root), joins_meet rest⟩
  | .collection path alias? :: rest => ⟨h.join (.collection path alias?), joins_meet rest⟩
  | .qualified type fetch target alias? predicate :: rest =>
    ⟨⟨h.join (.qualified type fetch target alias? predicate), target.meets h,
      restriction_meets predicate⟩, joins_meet rest⟩

theorem spaces_meet : ∀ written : List Space, spacesMeet rules written
  | [] => trivial
  | .mk root joins :: rest => ⟨⟨h.root root, joins_meet joins⟩, spaces_meet rest⟩

theorem sortItems_meet : ∀ written : List SortItem, sortItemsMeet rules written
  | [] => trivial
  | .mk expression _ _ :: rest => ⟨expression.meets, sortItems_meet rest⟩

theorem order_meets : ∀ written : Option (List SortItem), orderMeets rules written
  | none => trivial
  | some items => sortItems_meet items

theorem Query.meets : ∀ (written : Query) (nested : Bool), written.Meets rules nested
  | .mk select spaces restriction order limit offset, nested =>
    ⟨h.query nested (.mk select spaces restriction order limit offset), spaces_meet spaces,
      clause_meets select, restriction_meets restriction, order_meets order, optional_meets limit,
      optional_meets offset⟩

end

/-- Rules that require nothing are met by every statement. -/
theorem Statement.meets (written : Statement) : written.Meets rules := by
  cases written with
  | select query => exact query.meets h false
  | update target assignments restriction =>
    exact ⟨h.root target, fun assignment _ => assignment.value.meets h,
      restriction_meets h restriction⟩
  | delete target restriction => exact ⟨h.root target, restriction_meets h restriction⟩
  | insert target stateFields query => exact ⟨h.root _, query.meets h false⟩

end

end EntityQuery.Phrase

/-! ## Phrases of the strict language -/

namespace EntityQuery.Phrase

/-- A variable that is no reserved word. -/
def NotReserved (alias? : Option String) : Prop :=
  ∀ aliasName, alias? = some aliasName → Catalogue.isReserved aliasName = false

/-- A call is of a standard function or of a function of a collection that is no extension, unless
it is a generic one. -/
def CompliantCall (generic : Bool) (name : String) : Prop :=
  match if generic then none else CollectionFunction.ofName? name with
  | some function => function.isExtension = false
  | none => generic = true ∨ Catalogue.isStandardFunction name = true

/-- A root is over a mapped entity and its variable is no reserved word. -/
def CompliantRoot (schema : Schema) (root : Root) : Prop :=
  (∀ entity, schema.entity? root.entity.text = some entity → entity.isPolymorphic = false)
    ∧ NotReserved root.alias?

/-- The variable of a join is no reserved word, and a fetched join has none. -/
def CompliantJoin : Join → Prop
  | .cross root => NotReserved root.alias?
  | .collection _ alias? => NotReserved alias?
  | .qualified _ fetch _ alias? _ => NotReserved alias? ∧ (fetch = true → alias? = none)

/-- A query has a select clause, no limit and no offset, and no order where it is nested. -/
def CompliantQuery (nested : Bool) : Query → Prop
  | .mk select _ _ order limit offset =>
    select.isSome = true ∧ (nested = true → order = none) ∧ limit = none ∧ offset = none

/-- What the strict language requires of the parts of a phrase. -/
abbrev compliance (schema : Schema) : Rules where
  call := CompliantCall
  root := CompliantRoot schema
  join := CompliantJoin
  result := NotReserved
  query := CompliantQuery

/-- Nothing in the statement is rejected by the strict language for its form alone. -/
def Statement.Compliant (schema : Schema) (statement : Statement) : Prop :=
  statement.Meets (compliance schema)

end EntityQuery.Phrase

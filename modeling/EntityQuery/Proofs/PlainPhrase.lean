import EntityQuery.Interpretation.Context
import EntityQuery.Phrase.Tree

/-!
# Phrases with plain variables

A phrase is plain if no variable in it looks like a made-up one: neither an identification variable,
of a root or a join, nor the alias of a selected expression.

* `Statement.Plain`, `Query.Plain`, `Expression.Plain`.
* `expressionsPlain_iff`, `spacesPlain_iff`, …: lists member by member.
-/

namespace EntityQuery.Phrase

open Interpretation (Context)

/-- The variable, if there is one, looks like no made-up one. -/
def PlainVariable (alias? : Option String) : Prop :=
  ∀ aliasName, alias? = some aliasName → ∀ number, aliasName ≠ Context.generatedAlias number

mutual

/-- No variable in the expression looks like a made-up one. -/
def Expression.Plain : Expression → Prop
  | .literal _ => True
  | .parameter _ => True
  | .path _ => True
  | .indexed _ index _ => index.Plain
  | .treated _ _ _ => True
  | .mapFunction _ _ => True
  | .arithmetic _ operands => expressionsPlain operands
  | .concatenation operands => expressionsPlain operands
  | .unary _ operand => operand.Plain
  | .grouped inner => inner.Plain
  | .call _ _ _ _ arguments => expressionsPlain arguments
  | .simpleCase operand whens otherwise =>
    operand.Plain ∧ simpleWhensPlain whens ∧ optionalPlain otherwise
  | .searchedCase whens otherwise => searchedWhensPlain whens ∧ optionalPlain otherwise
  | .subquery query => query.Plain

def expressionsPlain : List Expression → Prop
  | [] => True
  | first :: rest => first.Plain ∧ expressionsPlain rest

def optionalPlain : Option Expression → Prop
  | none => True
  | some expression => expression.Plain

def SimpleWhen.Plain : SimpleWhen → Prop
  | .mk value result => value.Plain ∧ result.Plain

def simpleWhensPlain : List SimpleWhen → Prop
  | [] => True
  | first :: rest => first.Plain ∧ simpleWhensPlain rest

def SearchedWhen.Plain : SearchedWhen → Prop
  | .mk condition result => condition.Plain ∧ result.Plain

def searchedWhensPlain : List SearchedWhen → Prop
  | [] => True
  | first :: rest => first.Plain ∧ searchedWhensPlain rest

def Predicate.Plain : Predicate → Prop
  | .and left right => left.Plain ∧ right.Plain
  | .or left right => left.Plain ∧ right.Plain
  | .not inner => inner.Plain
  | .grouped inner => inner.Plain
  | .comparison _ left right => left.Plain ∧ right.Plain
  | .between expression lower upper _ => expression.Plain ∧ lower.Plain ∧ upper.Plain
  | .like expression pattern escape _ =>
    expression.Plain ∧ pattern.Plain ∧ optionalPlain escape
  | .inList expression items _ => expression.Plain ∧ expressionsPlain items
  | .inSubquery expression subquery _ => expression.Plain ∧ subquery.Plain
  | .isNull expression _ => expression.Plain
  | .isEmpty expression _ => expression.Plain
  | .memberOf element collection _ => element.Plain ∧ collection.Plain
  | .existence expression _ => expression.Plain

def restrictionPlain : Option Predicate → Prop
  | none => True
  | some predicate => predicate.Plain

def SelectExpression.Plain : SelectExpression → Prop
  | .instantiation _ arguments => itemsPlain arguments
  | .object _ => True
  | .expression expression => expression.Plain

def SelectItem.Plain : SelectItem → Prop
  | .mk expression alias? => PlainVariable alias? ∧ expression.Plain

def itemsPlain : List SelectItem → Prop
  | [] => True
  | first :: rest => first.Plain ∧ itemsPlain rest

def SelectClause.Plain : SelectClause → Prop
  | .mk _ items => itemsPlain items

def clausePlain : Option SelectClause → Prop
  | none => True
  | some clause => clause.Plain

def Join.Plain : Join → Prop
  | .cross root => PlainVariable root.alias?
  | .collection _ alias? => PlainVariable alias?
  | .qualified _ _ _ alias? predicate => PlainVariable alias? ∧ restrictionPlain predicate

def joinsPlain : List Join → Prop
  | [] => True
  | first :: rest => first.Plain ∧ joinsPlain rest

def Space.Plain : Space → Prop
  | .mk root joins => PlainVariable root.alias? ∧ joinsPlain joins

def spacesPlain : List Space → Prop
  | [] => True
  | first :: rest => first.Plain ∧ spacesPlain rest

def SortItem.Plain : SortItem → Prop
  | .mk expression _ _ => expression.Plain

def sortItemsPlain : List SortItem → Prop
  | [] => True
  | first :: rest => first.Plain ∧ sortItemsPlain rest

def orderPlain : Option (List SortItem) → Prop
  | none => True
  | some items => sortItemsPlain items

/-- No variable in the query looks like a made-up one. -/
def Query.Plain : Query → Prop
  | .mk select spaces restriction order limit offset =>
    clausePlain select ∧ spacesPlain spaces ∧ restrictionPlain restriction ∧ orderPlain order
      ∧ optionalPlain limit ∧ optionalPlain offset

end

/-- No variable in the statement looks like a made-up one. -/
def Statement.Plain : Statement → Prop
  | .select query => query.Plain
  | .update target assignments restriction =>
    PlainVariable target.alias? ∧ (∀ assignment ∈ assignments, assignment.value.Plain)
      ∧ restrictionPlain restriction
  | .delete target restriction => PlainVariable target.alias? ∧ restrictionPlain restriction
  | .insert _ _ query => query.Plain

/-! ## Lists -/

theorem expressionsPlain_iff {values : List Expression} :
    expressionsPlain values ↔ ∀ x ∈ values, x.Plain := by
  induction values with
  | nil => simp [expressionsPlain]
  | cons first rest ih => simp [expressionsPlain, ih]

theorem simpleWhensPlain_iff {branches : List SimpleWhen} :
    simpleWhensPlain branches ↔ ∀ x ∈ branches, x.Plain := by
  induction branches with
  | nil => simp [simpleWhensPlain]
  | cons first rest ih => simp [simpleWhensPlain, ih]

theorem searchedWhensPlain_iff {branches : List SearchedWhen} :
    searchedWhensPlain branches ↔ ∀ x ∈ branches, x.Plain := by
  induction branches with
  | nil => simp [searchedWhensPlain]
  | cons first rest ih => simp [searchedWhensPlain, ih]

theorem itemsPlain_iff {items : List SelectItem} : itemsPlain items ↔ ∀ x ∈ items, x.Plain := by
  induction items with
  | nil => simp [itemsPlain]
  | cons first rest ih => simp [itemsPlain, ih]

theorem joinsPlain_iff {joins : List Join} : joinsPlain joins ↔ ∀ x ∈ joins, x.Plain := by
  induction joins with
  | nil => simp [joinsPlain]
  | cons first rest ih => simp [joinsPlain, ih]

theorem spacesPlain_iff {spaces : List Space} : spacesPlain spaces ↔ ∀ x ∈ spaces, x.Plain := by
  induction spaces with
  | nil => simp [spacesPlain]
  | cons first rest ih => simp [spacesPlain, ih]

theorem sortItemsPlain_iff {items : List SortItem} :
    sortItemsPlain items ↔ ∀ x ∈ items, x.Plain := by
  induction items with
  | nil => simp [sortItemsPlain]
  | cons first rest ih => simp [sortItemsPlain, ih]

end EntityQuery.Phrase

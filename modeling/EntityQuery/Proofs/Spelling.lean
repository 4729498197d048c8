import EntityQuery.Grammar.LiteralToken
import Mathlib.Algebra.Group.Nat.Defs

/-!
# The spelling of expressions and predicates

An expression or a predicate without queries is spelled by its tokens with single spaces between
them. Its spelling has parentheses only where the tree has a group, so it is read back only if the
tree has the shape that the precedence of the operators gives it.

* `Expression.tokens`, `Predicate.tokens`, `spelling`: how a tree is written.
* `Expression.rank`, `Predicate.rank`: how tightly the outermost operator binds.
* `Expression.Normal`, `Predicate.Normal`: trees whose operands bind as tightly as their places ask.
-/

namespace EntityQuery

/-- The sign as it is written. -/
def Sign.symbol : Sign → String
  | plus => "+"
  | minus => "-"

/-- How tightly the operator binds. -/
def ArithmeticOperator.rank : ArithmeticOperator → Nat
  | add => 1
  | subtract => 1
  | multiply => 2
  | divide => 2

/-- The text is an identifier, reserved words included. -/
def Grammar.IsWord (word : String) : Prop := Grammar.takeWord? word.toList = some (word, [])

namespace Phrase

open Grammar (IsWord isReserved singleQuote doubleQuote)

/-! ## Tokens -/

/-- A text between quotes, in which a quote is written twice. -/
def quoted (quote : Char) (text : String) : String :=
  String.ofList
    (quote :: (text.toList.flatMap fun c => if c = quote then [c, c] else [c]) ++ [quote])

/-- A literal as a token. A string of one character stands between double quotes, because single
ones make it a character. -/
def Literal.token (literal : Literal) : String :=
  match literal.kind with
  | .string => quoted (if literal.text.length = 1 then doubleQuote else singleQuote) literal.text
  | .character => quoted singleQuote literal.text
  | _ => literal.text

def Parameter.token : Parameter → String
  | .named name => ":" ++ name
  | .positional position => "?" ++ toString position

/-- A word that is there only in the negated form. -/
def negation (negated : Bool) : List String := if negated then ["not"] else []

mutual

/-- The tokens of an expression without queries; other shapes have none. -/
def Expression.tokens : Expression → List String
  | .literal literal => [literal.token]
  | .parameter parameter => [parameter.token]
  | .path path => [path.text]
  | .arithmetic operator [left, right] => left.tokens ++ operator.symbol :: right.tokens
  | .concatenation [left, right] => left.tokens ++ "||" :: right.tokens
  | .unary sign operand => sign.symbol :: operand.tokens
  | .grouped inner => "(" :: inner.tokens ++ [")"]
  | .call name _ _ true _ => [name, "(", "*", ")"]
  | .call name _ distinct false arguments =>
    name :: "(" :: (if distinct then ["distinct"] else []) ++ argumentTokens arguments ++ [")"]
  | .simpleCase operand whens otherwise =>
    "case" :: operand.tokens ++ simpleWhenTokens whens ++ caseEndTokens otherwise
  | .searchedCase whens otherwise =>
    "case" :: searchedWhenTokens whens ++ caseEndTokens otherwise
  | _ => []

/-- Expressions with commas between them. -/
def argumentTokens : List Expression → List String
  | [] => []
  | first :: rest => first.tokens ++ furtherTokens rest

/-- Expressions with a comma before each. -/
def furtherTokens : List Expression → List String
  | [] => []
  | first :: rest => "," :: first.tokens ++ furtherTokens rest

def SimpleWhen.tokens : SimpleWhen → List String
  | .mk value result => "when" :: value.tokens ++ "then" :: result.tokens

def simpleWhenTokens : List SimpleWhen → List String
  | [] => []
  | first :: rest => first.tokens ++ simpleWhenTokens rest

def SearchedWhen.tokens : SearchedWhen → List String
  | .mk condition result => "when" :: condition.tokens ++ "then" :: result.tokens

def searchedWhenTokens : List SearchedWhen → List String
  | [] => []
  | first :: rest => first.tokens ++ searchedWhenTokens rest

/-- The alternative of a case and its end. -/
def caseEndTokens : Option Expression → List String
  | none => ["end"]
  | some otherwise => "else" :: otherwise.tokens ++ ["end"]

/-- The escape of a pattern. -/
def escapeTokens : Option Expression → List String
  | none => []
  | some escape => "escape" :: escape.tokens

/-- The tokens of a predicate without queries. -/
def Predicate.tokens : Predicate → List String
  | .and left right => left.tokens ++ "and" :: right.tokens
  | .or left right => left.tokens ++ "or" :: right.tokens
  | .not inner => "not" :: inner.tokens
  | .grouped inner => "(" :: inner.tokens ++ [")"]
  | .comparison operator left right => left.tokens ++ operator.symbol :: right.tokens
  | .between expression lower upper negated =>
    expression.tokens ++ negation negated ++ "between" :: lower.tokens ++ "and" :: upper.tokens
  | .like expression pattern escape negated =>
    expression.tokens ++ negation negated ++ "like" :: pattern.tokens ++ escapeTokens escape
  | .inList expression items negated =>
    expression.tokens ++ negation negated ++ "in" :: "(" :: argumentTokens items ++ [")"]
  | .inSubquery _ _ _ => []
  | .isNull expression negated => expression.tokens ++ "is" :: negation negated ++ ["null"]
  | .isEmpty expression negated => expression.tokens ++ "is" :: negation negated ++ ["empty"]
  | .memberOf element collection negated =>
    element.tokens ++ negation negated ++ "member" :: "of" :: collection.tokens
  | .existence expression negated => negation negated ++ "exists" :: expression.tokens

end

/-- The text of tokens with single spaces between them. -/
def spelling (tokens : List String) : String := String.intercalate " " tokens

/-! ## Precedence -/

/-- How tightly the outermost operator of an expression binds: concatenation least, then addition,
multiplication and signs; everything else is closed. -/
def Expression.rank : Expression → Nat
  | .concatenation _ => 0
  | .arithmetic operator _ => operator.rank
  | .unary _ _ => 3
  | _ => 4

/-- How tightly the outermost operator of a predicate binds. -/
def Predicate.rank : Predicate → Nat
  | .or _ _ => 0
  | .and _ _ => 1
  | _ => 2

/-- A literal that some text is read as. -/
def Literal.IsRead (literal : Literal) : Prop :=
  ∃ text rest, Grammar.literalToken text = .ok literal rest

/-- A parameter whose name is an identifier, or whose number fits an unsigned word of 32 bits. -/
def Parameter.IsRead : Parameter → Prop
  | .named name => IsWord name
  | .positional position => position < 2 ^ 32

/-- A path of identifiers that does not begin with a reserved word. -/
def IsPath (path : DottedName) : Prop :=
  ∃ first rest, path.parts = first :: rest ∧ isReserved first = false
    ∧ ∀ part ∈ path.parts, IsWord part

/-- The functions with forms of their own. -/
def formedFunctions : List String := ["treat", "key", "value", "entry", "function"]

/-- A name under which functions are called with plain arguments. -/
def IsFunction (name : String) : Prop :=
  IsWord name ∧ isReserved name = false ∧ Text.lowered name ∉ formedFunctions

/-- A test for existence that is not negated. -/
def Predicate.IsExistence : Predicate → Prop
  | .existence _ negated => negated = false
  | _ => False

mutual

/-- No operand binds less tightly than its operator; a right operand binds more tightly. -/
def Expression.Normal : Expression → Prop
  | .literal literal => literal.IsRead
  | .parameter parameter => parameter.IsRead
  | .path path => IsPath path
  | .arithmetic operator [left, right] =>
    left.Normal ∧ right.Normal ∧ operator.rank ≤ left.rank ∧ operator.rank < right.rank
  | .concatenation [left, right] => left.Normal ∧ right.Normal ∧ 0 < right.rank
  | .unary _ operand => operand.Normal ∧ 3 ≤ operand.rank
  | .grouped inner => inner.Normal
  | .call name generic distinct star arguments =>
    generic = false ∧ IsFunction name ∧ (star = true → arguments = [])
      ∧ (arguments = [] → distinct = false) ∧ expressionsNormal arguments
  | .simpleCase operand whens otherwise =>
    operand.Normal ∧ whens ≠ [] ∧ simpleWhensNormal whens ∧ optionalNormal otherwise
  | .searchedCase whens otherwise =>
    whens ≠ [] ∧ searchedWhensNormal whens ∧ optionalNormal otherwise
  | _ => False

def expressionsNormal : List Expression → Prop
  | [] => True
  | first :: rest => first.Normal ∧ expressionsNormal rest

def optionalNormal : Option Expression → Prop
  | none => True
  | some expression => expression.Normal

def SimpleWhen.Normal : SimpleWhen → Prop
  | .mk value result => value.Normal ∧ result.Normal

def simpleWhensNormal : List SimpleWhen → Prop
  | [] => True
  | first :: rest => first.Normal ∧ simpleWhensNormal rest

def SearchedWhen.Normal : SearchedWhen → Prop
  | .mk condition result => condition.Normal ∧ result.Normal

def searchedWhensNormal : List SearchedWhen → Prop
  | [] => True
  | first :: rest => first.Normal ∧ searchedWhensNormal rest

/-- No operand binds less tightly than its operator, and a negation does not stand before a test
for existence that would take it as its own. -/
def Predicate.Normal : Predicate → Prop
  | .and left right => left.Normal ∧ right.Normal ∧ 1 ≤ left.rank ∧ 1 < right.rank
  | .or left right => left.Normal ∧ right.Normal ∧ 0 < right.rank
  | .not inner => inner.Normal ∧ 2 ≤ inner.rank ∧ ¬inner.IsExistence
  | .grouped inner => inner.Normal
  | .comparison _ left right => left.Normal ∧ right.Normal
  | .between expression lower upper _ => expression.Normal ∧ lower.Normal ∧ upper.Normal
  | .like expression pattern escape _ =>
    expression.Normal ∧ pattern.Normal ∧ optionalNormal escape
  | .inList expression items _ => expression.Normal ∧ items ≠ [] ∧ expressionsNormal items
  | .inSubquery _ _ _ => False
  | .isNull expression _ => expression.Normal
  | .isEmpty expression _ => expression.Normal
  | .memberOf element collection _ => element.Normal ∧ collection.Normal
  | .existence expression _ => expression.Normal

end

/-! ## Forms -/

section

variable {left right operand inner : Expression} {otherwise : Option Expression}

theorem tokens_arithmetic (operator : ArithmeticOperator) :
    (Expression.arithmetic operator [left, right]).tokens
      = left.tokens ++ operator.symbol :: right.tokens := by
  rw [Expression.tokens]

theorem tokens_concatenation :
    (Expression.concatenation [left, right]).tokens = left.tokens ++ "||" :: right.tokens := by
  rw [Expression.tokens]

theorem simpleWhenTokens_eq (whens : List SimpleWhen) :
    simpleWhenTokens whens = whens.flatMap SimpleWhen.tokens := by
  induction whens with
  | nil => rw [simpleWhenTokens, List.flatMap_nil]
  | cons branch whens ih => rw [simpleWhenTokens, ih, List.flatMap_cons]

theorem searchedWhenTokens_eq (whens : List SearchedWhen) :
    searchedWhenTokens whens = whens.flatMap SearchedWhen.tokens := by
  induction whens with
  | nil => rw [searchedWhenTokens, List.flatMap_nil]
  | cons branch whens ih => rw [searchedWhenTokens, ih, List.flatMap_cons]

theorem tokens_simpleCase (whens : List SimpleWhen) :
    (Expression.simpleCase operand whens otherwise).tokens
      = "case"
        :: (operand.tokens ++ whens.flatMap SimpleWhen.tokens ++ caseEndTokens otherwise) := by
  rw [Expression.tokens, simpleWhenTokens_eq]
  rfl

theorem tokens_searchedCase (whens : List SearchedWhen) :
    (Expression.searchedCase whens otherwise).tokens
      = "case" :: (whens.flatMap SearchedWhen.tokens ++ caseEndTokens otherwise) := by
  rw [Expression.tokens, searchedWhenTokens_eq]
  rfl

theorem normal_grouped : (Expression.grouped inner).Normal ↔ inner.Normal := by
  rw [Expression.Normal]

theorem expressions_normal {items : List Expression} (h : expressionsNormal items) :
    ∀ item ∈ items, item.Normal := by
  induction items with
  | nil => intro item hmem; cases hmem
  | cons first rest ih =>
    rw [expressionsNormal] at h
    exact List.forall_mem_cons.mpr ⟨h.1, ih h.2⟩

end

section

variable {predicate : Predicate}

theorem tokens_groupedPredicate :
    (Predicate.grouped predicate).tokens = "(" :: predicate.tokens ++ [")"] := by
  rw [Predicate.tokens]

theorem normal_groupedPredicate : (Predicate.grouped predicate).Normal ↔ predicate.Normal := by
  rw [Predicate.Normal]

end

end Phrase
end EntityQuery

import EntityQuery.Grammar.Expression

/-!
# Predicates of the grammar

Precedence, lowest first: or, and, not, the operators of predicates. A parenthesis may open a
predicate or an expression; it is first tried as a predicate, and taken as one unless the text goes
on with an operator that has expressions as operands.
-/

namespace EntityQuery.Grammar

open EntityQuery.Phrase
open Reader (accepts optional look)

/-- The comparison signs, in the order in which they are tried. -/
def comparisonSigns : List (String × ComparisonOperator) :=
  [("<>", .notEqual), ("!=", .notEqual), ("^=", .notEqual), ("<=", .lessThanOrEqual),
    (">=", .greaterThanOrEqual), ("=", .equal), ("<", .lessThan), (">", .greaterThan)]

/-- Reads a comparison sign after blanks; a failure stands behind the blanks. -/
def comparisonOperator : Reader ComparisonOperator := do
  blanks
  fun text =>
    let found? := comparisonSigns.findSome? fun entry =>
      (dropSign? entry.1.toList text).map fun rest => (entry.2, rest)
    match found? with
    | some (operator, rest) => .ok operator rest
    | none => .fail text

/-- The signs and the words with which an expression in parentheses goes on. -/
def continuingSigns : List String := ["=", "<", ">", "!", "^", "+", "-", "*", "/", "|"]

def continuingWords : List String := ["is", "not", "between", "like", "in", "member"]

/-- The text goes on with an operator that has expressions as operands. -/
def continuesExpression (text : List Char) : Bool :=
  continuingSigns.any (fun sign => beginsWithSign sign text)
    || continuingWords.any (fun word => beginsWithWord word text)

/-- Reads a predicate in parentheses that hold no query. -/
def groupedPredicate (inner : Inner) : Reader Predicate := do
  sign "("
  if ← look beginsQuery then Reader.fail
  else
    let predicate ← inner.predicate
    sign ")"
    return .grouped predicate

/-- Reads a predicate in parentheses, unless the text goes on as an expression. -/
def groupedAlone? (inner : Inner) : Reader (Option Predicate) :=
  optional do
    if ← look (beginsWithSign "(") then
      let predicate ← groupedPredicate inner
      if ← look continuesExpression then Reader.fail else return predicate
    else Reader.fail

/-- Reads what an expression is looked for in. -/
def inOperand (inner : Inner) (expression : Expression) (negated : Bool) : Reader Predicate := do
  if ← accepts (sign "(") then
    if ← look beginsQuery then
      let query ← inner.query
      sign ")"
      return .inSubquery expression (.subquery query) negated
    else
      let items ← arguments inner
      sign ")"
      return .inList expression items negated
  else
    let item ← concatenation inner
    return .inList expression [item] negated

/-- Reads the bounds of a range. -/
def betweenOperands (inner : Inner) (expression : Expression) (negated : Bool) :
    Reader Predicate := do
  let lower ← concatenation inner
  keyword "and"
  let upper ← concatenation inner
  return .between expression lower upper negated

/-- Reads a pattern with its escape. -/
def likeOperands (inner : Inner) (expression : Expression) (negated : Bool) :
    Reader Predicate := do
  let pattern ← concatenation inner
  if ← accepts (keyword "escape") then
    let escape ← concatenation inner
    return .like expression pattern (some escape) negated
  else return .like expression pattern none negated

/-- Reads the collection that an element is looked for in. -/
def memberOperand (inner : Inner) (element : Expression) (negated : Bool) :
    Reader Predicate := do
  let _ ← accepts (keyword "of")
  let collection ← concatenation inner
  return .memberOf element collection negated

/-- Reads the property that an expression is said to have. -/
def isOperand (expression : Expression) : Reader Predicate := do
  let negated ← accepts (keyword "not")
  if ← accepts (keyword "null") then return .isNull expression negated
  else
    keyword "empty"
    return .isEmpty expression negated

/-- Reads the operator of a predicate and the rest of its operands. -/
def operatorOperands (inner : Inner) (expression : Expression) : Reader Predicate := fun start =>
  (do
    let negated ← accepts (keyword "not")
    if ← accepts (keyword "between") then betweenOperands inner expression negated
    else if ← accepts (keyword "like") then likeOperands inner expression negated
    else if ← accepts (keyword "in") then inOperand inner expression negated
    else if ← accepts (keyword "member") then memberOperand inner expression negated
    else if negated then Reader.failAt start
    else
      let operator ← comparisonOperator
      let right ← concatenation inner
      return .comparison operator expression right) start

/-- Reads a predicate that begins with an expression. -/
def expressionPredicate (inner : Inner) : Reader Predicate := do
  let expression ← concatenation inner
  if ← accepts (keyword "is") then isOperand expression
  else operatorOperands inner expression

/-- Reads the operand of a test for existence. -/
def existence (inner : Inner) (negated : Bool) : Reader Predicate := do
  let operand ← concatenation inner
  return .existence operand negated

/-- Reads a predicate without a leading not. -/
def primaryPredicate (inner : Inner) : Reader Predicate := do
  if ← accepts (keyword "exists") then existence inner false
  else match ← groupedAlone? inner with
    | some predicate => return predicate
    | none => expressionPredicate inner

/-- Reads a predicate with any number of leading nots. Behind a not that is followed by a test for
existence the text is not set back. -/
def negatable (inner : Inner) : Reader Predicate := fun start =>
  (do
    if ← accepts (keyword "not") then
      if ← accepts (keyword "exists") then existence inner true
      else
        match ← optional inner.negatable with
        | some predicate => return .not predicate
        | none => Reader.failAt start
    else primaryPredicate inner) start

/-- Reads operands with a keyword between them, grouped from the left. -/
def joined (word : String) (join : Predicate → Predicate → Predicate)
    (operand : Reader Predicate) : Reader Predicate := do
  let first ← operand
  Reader.chain (fun left => do
    if ← accepts (keyword word) then
      let right ← operand
      return some (join left right)
    else return none) first

def conjunction (inner : Inner) : Reader Predicate := joined "and" .and (negatable inner)

/-- Reads a predicate. -/
def disjunction (inner : Inner) : Reader Predicate := joined "or" .or (conjunction inner)

end EntityQuery.Grammar

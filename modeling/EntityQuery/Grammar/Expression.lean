import EntityQuery.Grammar.LiteralToken
import EntityQuery.Number.Whole

/-!
# Expressions of the grammar

The productions of expressions. A production that contains itself does so through one of the
readers of an `Inner` record, which stand for the grammar on a shorter text; so no definition here
is recursive. Precedence, lowest first: concatenation, addition, multiplication, signs.
-/

namespace EntityQuery.Grammar

open EntityQuery.Phrase
open Reader (accepts optional look)

/-- The readers through which the grammar enters itself again, on a shorter text. -/
structure Inner where
  predicate : Reader Predicate
  negatable : Reader Predicate
  expression : Reader Expression
  signed : Reader Expression
  query : Reader Query
  instantiation : Reader SelectExpression

/-- The text begins, after blanks, with a query. -/
def beginsQuery (text : List Char) : Bool :=
  beginsWithWord "select" text || beginsWithWord "from" text

/-! ## Primary expressions -/

/-- Reads a number of at least one digit that fits an unsigned word of 32 bits. -/
def position : Reader Nat := fun text =>
  let digits := text.takeWhile Char.isDigit
  if digits.isEmpty then .fail text
  else match Number.Whole.readUnsigned 32 digits with
    | .ok value => .ok value (text.dropWhile Char.isDigit)
    | .error _ => .fail (text.dropWhile Char.isDigit)

/-- Reads a parameter if its mark is there. -/
def parameter : Reader (Option Parameter) := do
  if ← accepts (exactSign ":") then
    let name ← anyIdentifier
    return some (.named name)
  else if ← accepts (exactSign "?") then
    let number ← position
    return some (.positional number)
  else return none

/-- Reads expressions with commas between them. -/
def arguments (inner : Inner) : Reader (List Expression) :=
  Reader.separated (sign ",") inner.expression

/-- Reads the rest of a parenthesis: a query or an expression. -/
def parenthesized (inner : Inner) : Reader Expression := do
  if ← look beginsQuery then
    let query ← inner.query
    sign ")"
    return .subquery query
  else
    let expression ← inner.expression
    sign ")"
    return .grouped expression

/-- Reads the alternative of a case and its end. -/
def caseEnd (inner : Inner) : Reader (Option Expression) := do
  if ← accepts (keyword "else") then
    let otherwise ← inner.expression
    keyword "end"
    return some otherwise
  else
    keyword "end"
    return none

/-- Reads a branch of a case on conditions, if there is one. -/
def searchedWhen (inner : Inner) : Reader (Option SearchedWhen) := do
  if ← accepts (keyword "when") then
    let condition ← inner.predicate
    keyword "then"
    let result ← inner.expression
    return some ⟨condition, result⟩
  else return none

/-- Reads a branch of a case on values, if there is one. -/
def simpleWhen (inner : Inner) : Reader (Option SimpleWhen) := do
  if ← accepts (keyword "when") then
    let value ← inner.expression
    keyword "then"
    let result ← inner.expression
    return some ⟨value, result⟩
  else return none

/-- Reads a case after its keyword. -/
def caseExpression (inner : Inner) : Reader Expression := do
  if ← look (beginsWithWord "when") then
    let whens ← Reader.many (searchedWhen inner)
    let otherwise ← caseEnd inner
    return .searchedCase whens otherwise
  else
    let operand ← inner.expression
    let whens ← Reader.many (simpleWhen inner)
    if whens.isEmpty then Reader.fail
    else
      let otherwise ← caseEnd inner
      return .simpleCase operand whens otherwise

/-- Reads the path that goes on behind an index or a narrowing, if it does. -/
def remainder : Reader (Option DottedName) :=
  optional do
    sign "."
    dottedName

/-- Reads a narrowed path after its function name. -/
def treatedPath : Reader Expression := do
  sign "("
  let base ← dottedIdentifier
  keyword "as"
  let entity ← dottedName
  sign ")"
  let remainder ← remainder
  return .treated base entity remainder

/-- Reads the argument of a map function. -/
def mapArgument (function : MapFunction) : Reader Expression := do
  sign "("
  let argument ← dottedIdentifier
  sign ")"
  return .mapFunction function argument

/-- Reads a call of a function that is named by a literal. -/
def genericCall (inner : Inner) : Reader Expression := do
  sign "("
  blanks
  let name ← literalToken
  if ← accepts (sign ",") then
    let values ← arguments inner
    sign ")"
    return .call name.text true false false values
  else
    sign ")"
    return .call name.text true false false []

/-- Reads the arguments of a call. -/
def call (inner : Inner) (name : String) : Reader Expression := do
  sign "("
  if ← accepts (sign "*") then
    sign ")"
    return .call name false false true []
  else if ← look (beginsWithSign ")") then
    sign ")"
    return .call name false false false []
  else
    let distinct ← accepts (keyword "distinct")
    let values ← arguments inner
    sign ")"
    return .call name false distinct false values

/-- Reads a path after its first part, with an index if there is one. -/
def pathFrom (inner : Inner) (first : String) : Reader Expression := do
  let base ← dottedTail first
  if ← accepts (sign "[") then
    let index ← inner.expression
    sign "]"
    let remainder ← remainder
    return .indexed base index remainder
  else return .path base

/-- Reads a path or a call. -/
def pathOrCall (inner : Inner) : Reader Expression := do
  let first ← identifier
  if ← look (beginsWithSign "(") then
    match Text.lowered first with
    | "treat" => treatedPath
    | "key" => mapArgument .key
    | "value" => mapArgument .value
    | "entry" => mapArgument .entry
    | "function" => genericCall inner
    | _ => call inner first
  else pathFrom inner first

/-- Reads an expression without operators. -/
def primary (inner : Inner) : Reader Expression := do
  blanks
  if ← accepts (sign "(") then parenthesized inner
  else match ← parameter with
    | some parameter => return .parameter parameter
    | none => match ← optional literalToken with
      | some literal => return .literal literal
      | none =>
        if ← accepts (exactKeyword "case") then caseExpression inner else pathOrCall inner

/-! ## Expressions -/

/-- Reads the first of two operators that is there. -/
def operator {α : Type} (first : String × α) (second : String × α) : Reader (Option α) := do
  if ← accepts (sign first.1) then return some first.2
  else if ← accepts (sign second.1) then return some second.2
  else return none

/-- Reads a signed expression. -/
def signed (inner : Inner) : Reader Expression := do
  match ← operator ("+", Sign.plus) ("-", Sign.minus) with
  | some sign =>
    let operand ← inner.signed
    return .unary sign operand
  | none => primary inner

/-- Reads operands with operators of one level between them, grouped from the left. -/
def leftGrouped (operator : Reader (Option ArithmeticOperator)) (operand : Reader Expression) :
    Reader Expression := do
  let first ← operand
  Reader.chain (fun left => do
    match ← operator with
    | some operator =>
      let right ← operand
      return some (.arithmetic operator [left, right])
    | none => return none) first

def multiplicative (inner : Inner) : Reader Expression :=
  leftGrouped (operator ("*", .multiply) ("/", .divide)) (signed inner)

def additive (inner : Inner) : Reader Expression :=
  leftGrouped (operator ("+", .add) ("-", .subtract)) (multiplicative inner)

/-- Reads an expression. -/
def concatenation (inner : Inner) : Reader Expression := do
  let first ← additive inner
  Reader.chain (fun left => do
    if ← accepts (sign "||") then
      let right ← additive inner
      return some (.concatenation [left, right])
    else return none) first

end EntityQuery.Grammar

import EntityQuery.Interpretation.Call
import EntityQuery.Interpretation.Clause

/-!
# The meaning of queries

A query is interpreted from the outside in and from left to right, its from clause before all other
clauses, so that every clause can refer to the variables of the query. Each query opens a level of
its own.

* `Step.query`, `Step.predicate`, `Step.expression`.
-/

namespace EntityQuery.Interpretation.Step

open Resolved (Expression Predicate)

mutual

def expression : Phrase.Expression → Step Expression
  | .literal token => literal token
  | .parameter written => parameter written
  | .path dotted => pathOrCall dotted
  | .indexed base index remainder => do
    let index ← expression index
    indexed base index remainder
  | .treated base entity remainder => treated base entity remainder
  | .mapFunction function argument => mapEntry function argument
  | .arithmetic operator [left, right] => do
    let left ← expression left
    let right ← expression right
    return arithmetic operator left right
  | .arithmetic _ operands => throw (.operandCount .arithmetic operands.length)
  | .concatenation [left, right] => do
    let left ← expression left
    let right ← expression right
    return .concatenation left right
  | .concatenation operands => throw (.operandCount .concatenation operands.length)
  | .unary sign operand => do
    return .unary sign (← expression operand)
  | .grouped inner => expression inner
  | .call name generic distinct star arguments => do
    match if generic then none else CollectionFunction.ofName? name with
    | some function =>
      announceCollectionFunction function
      match arguments with
      | [argument] =>
        if function = .index then indexOfJoin argument
        else
          let argument ← expression argument
          collectionFunction function argument
      | _ => throw (.argumentCount function arguments.length)
    | none =>
      let standard := !generic && Catalogue.isStandardFunction name
      announceCall name generic standard
      let arguments ← expressions arguments
      return call name distinct star standard arguments
  | .simpleCase operand whens otherwise => do
    let operand ← expression operand
    let whens ← simpleWhens whens
    let otherwise ← optional otherwise
    let type? := Resolved.caseType? (whens.map Resolved.SimpleWhen.result) otherwise
    return .simpleCase operand whens otherwise type?
  | .searchedCase whens otherwise => do
    let whens ← searchedWhens whens
    let otherwise ← optional otherwise
    let type? := Resolved.caseType? (whens.map Resolved.SearchedWhen.result) otherwise
    return .searchedCase whens otherwise type?
  | .subquery nested => do
    return .subquery (.ofSelect (← query nested true))

def expressions : List Phrase.Expression → Step (List Expression)
  | [] => return []
  | first :: rest => do
    let first ← expression first
    return first :: (← expressions rest)

def optional : Option Phrase.Expression → Step (Option Expression)
  | none => return none
  | some written => do
    return some (← expression written)

def simpleWhen : Phrase.SimpleWhen → Step Resolved.SimpleWhen
  | .mk value result => do
    let value ← expression value
    let result ← expression result
    return .mk value result

def simpleWhens : List Phrase.SimpleWhen → Step (List Resolved.SimpleWhen)
  | [] => return []
  | first :: rest => do
    let first ← simpleWhen first
    return first :: (← simpleWhens rest)

def searchedWhen : Phrase.SearchedWhen → Step Resolved.SearchedWhen
  | .mk condition result => do
    let condition ← predicate condition
    let result ← expression result
    return .mk condition result

def searchedWhens : List Phrase.SearchedWhen → Step (List Resolved.SearchedWhen)
  | [] => return []
  | first :: rest => do
    let first ← searchedWhen first
    return first :: (← searchedWhens rest)

def predicate : Phrase.Predicate → Step Predicate
  | .and left right => do
    let left ← predicate left
    let right ← predicate right
    return .and left right
  | .or left right => do
    let left ← predicate left
    let right ← predicate right
    return .or left right
  | .not inner => do
    return .not (← predicate inner)
  | .grouped inner => do
    return .grouped (← predicate inner)
  | .comparison operator left right => do
    let left ← expression left
    let right ← expression right
    return .comparison operator left right
  | .between written lower upper negated => do
    let tested ← expression written
    let lower ← expression lower
    let upper ← expression upper
    return .between tested lower upper negated
  | .like written pattern escape negated => do
    let matched ← expression written
    let pattern ← expression pattern
    let escape ← optional escape
    return .like matched pattern escape negated
  | .inList written items negated => do
    let tested ← expression written
    let items ← expressions items
    return .inList tested items negated
  | .inSubquery written (.subquery nested) negated => do
    let tested ← expression written
    let nested ← query nested true
    return .inSubquery tested (.ofSelect nested) negated
  | .inSubquery written _ _ => do
    let _ ← expression written
    throw .membershipOperand
  | .isNull written negated => do
    return .isNull (← expression written) negated
  | .isEmpty written negated => do
    let collection ← pluralOperand .isEmpty (← expression written)
    return .isEmpty collection negated
  | .memberOf element collection negated => do
    let plural ← pluralOperand .memberOf (← expression element)
    let other ← expression collection
    return .memberOf plural other negated
  | .existence (.subquery nested) negated => do
    return .existence (.ofSelect (← query nested true)) negated
  | .existence _ _ => throw .existenceOperand

def restriction : Option Phrase.Predicate → Step (Option Predicate)
  | none => return none
  | some written => do
    return some (← predicate written)

def selectExpression : Phrase.SelectExpression → Step Expression
  | .instantiation target items => do
    let target ← instantiationTarget target items
    return .instantiation target (← arguments items)
  | .object name => do
    return .element (← identificationVariable name)
  | .expression written => expression written

/-- The arguments of an instantiation; their aliases are no result variables. -/
def arguments : List Phrase.SelectItem → Step (List Resolved.Argument)
  | [] => return []
  | .mk written alias? :: rest => do
    let value ← selectExpression written
    return .mk value alias? :: (← arguments rest)

/-- The selections from a position on. -/
def selections : List Phrase.SelectItem → Nat → Step (List Resolved.Selection)
  | [], _ => return []
  | .mk written alias? :: rest, position => do
    checkVariable alias?
    let selection := Resolved.Selection.mk (← selectExpression written) alias?
    bindSelection position selection
    return selection :: (← selections rest (position + 1))

/-- Whether a query is distinct, with its selections. -/
def selectClause : Option Phrase.SelectClause → Step (Bool × List Resolved.Selection)
  | none => do
    return (false, ← implicitSelection)
  | some (.mk distinct items) => do
    return (distinct, ← selections items 0)

def join (space : SpaceId) : Phrase.Join → Step Unit
  | .cross written => do
    let joined ← entity written.entity
    checkVariable written.alias?
    let _ ← crossJoin space joined written.alias?
  | .collection path alias? => memberJoin space path alias?
  | .qualified type fetch target alias? condition => do
    checkVariable alias?
    comply (fetch && alias?.isSome) (.aliasedFetchJoin target.path)
    let element ← joinTarget space target alias? type fetch
    match condition with
    | none => return
    | some written =>
      let condition ← under (.joinRestriction space) (predicate written)
      updateSpace space fun filled => .ok (filled.restrict element.uid condition)

def joins (space : SpaceId) : List Phrase.Join → Step Unit
  | [] => return
  | first :: rest => do
    join space first
    joins space rest

def space : Phrase.Space → Step Unit
  | .mk written hanging => do
    let id ← openSpace
    let _ ← root id written
    joins id hanging

def spaces : List Phrase.Space → Step Unit
  | [] => return
  | first :: rest => do
    space first
    spaces rest

def sortItem : Phrase.SortItem → Step Resolved.SortItem
  | .mk written collation ordering => do
    let value ←
      match resultVariable? (← get).trail written with
      | some result => pure result
      | none => expression written
    let order ← ofExcept (sortOrder ordering)
    return .mk value collation order

def sortItems : List Phrase.SortItem → Step (List Resolved.SortItem)
  | [] => return []
  | first :: rest => do
    let first ← sortItem first
    return first :: (← sortItems rest)

def order : Option (List Phrase.SortItem) → Step (Option (List Resolved.SortItem))
  | none => return none
  | some items => do
    return some (← sortItems items)

/-- The meaning of a query, which may be nested in another one. -/
def query : Phrase.Query → Bool → Step Resolved.Select
  | .mk select written condition ordering limit offset, nested => do
    comply (nested && ordering.isSome) .subqueryOrderBy
    comply (limit.isSome || offset.isSome) .limitOffset
    let (clauses, spaces) ← onLevel do
      spaces written
      let (distinct, selections) ← selectClause select
      let condition ← restriction condition
      let ordering ← order ordering
      let limit ← optional limit
      let offset ← optional offset
      return fun spaces =>
        Resolved.Select.mk spaces distinct selections condition ordering limit offset
    return clauses spaces

end

end EntityQuery.Interpretation.Step

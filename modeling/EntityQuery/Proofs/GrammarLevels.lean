import EntityQuery.Grammar.Statement
import EntityQuery.Proofs.ReaderRuns
import Mathlib.Data.Prod.Lex

/-!
# Loops and levels of the grammar

A loop carries a value from round to round. A round offers the next value, or it offers none and the
loop ends. Lists of items are carried as what has been read of them so far.

Productions call each other in two ways. On the text where it begins itself, a production calls only
productions of a lower rank, which is their precedence; all other calls enter the grammar again. The
productions that can be entered again, and those of the ladders of precedence, are the levels of the
grammar. Every other production is a part of the levels that call it.

* `Loop`, `Loop.round`: the loops of the grammar and a round of each.
* `Loop.InPlace`, `loops_inPlace`: where the loops stand in the productions. `many_eq_chain` and
  `separated_eq_chain` put the lists of the grammar in the form of loops.
* `Reader.Repeats`: a loop that goes on as its rounds say.
* `Level`, `Level.rank`: the levels and their ranks.
* `Table`: a reader for every level.
* `Table.unfoldOver`: the bodies of the productions, over a table for the calls of lower levels and
  readers for the calls that enter the grammar again. `Table.unfold` has one table for both.
* `production`, `production_eq_unfoldOver`: the levels over the readers of a depth.
* `Entry`, `Entry.Precedes`: calls of levels, ordered by the length of what is left of the text and
  then by rank. `Entry.step` is one step of a recursion along this order.
-/

namespace EntityQuery.Grammar

open EntityQuery.Phrase

namespace Reader

variable {α : Type}

/-- A round that adds what is offered to the items so far. -/
def pushing (item : Reader (Option α)) (items : List α) : Reader (Option (List α)) := do
  match ← item with
  | some value => return some (items ++ [value])
  | none => return none

/-- Reads an item behind a separator, if the separator is there. -/
def behind (separator : Reader Unit) (item : Reader α) : Reader (Option α) := do
  if ← accepts separator then
    let value ← item
    return some value
  else return none

/-- The loop goes on with the value that a round offers, and ends where none is offered. -/
def Repeats (round : α → Reader (Option α)) (loop : α → Reader α) : Prop :=
  ∀ value, loop value = do
    match ← round value with
    | some next => loop next
    | none => return value

/-- Pushing the items one by one reads the list of them, behind those that are there. -/
theorem chainUpTo_pushing (item : Reader (Option α)) (rounds : Nat) (items : List α) :
    chainUpTo (pushing item) rounds items
      = manyUpTo item rounds >>= fun values => pure (items ++ values) := by
  induction rounds generalizing items with
  | zero =>
    funext text
    exact congrArg (Reply.ok · text) (List.append_nil items).symm
  | succ rounds ih =>
    funext text
    unfold chainUpTo manyUpTo pushing
    cases hread : item text with
    | fail rest => rw [bind_fail (bind_fail hread), bind_fail (bind_fail hread)]
    | ok value? rest =>
      rw [bind_apply, bind_ok hread, bind_apply, bind_ok hread]
      cases value? with
      | none => exact congrArg (Reply.ok · rest) (List.append_nil items).symm
      | some value =>
        show chainUpTo (pushing item) rounds (items ++ [value]) rest = _
        rw [ih, bind_apply]
        simp only
        cases hothers : manyUpTo item rounds rest with
        | fail last => rw [bind_fail hothers]
        | ok values last =>
          rw [bind_ok hothers]
          simp

theorem chain_pushing (item : Reader (Option α)) (items : List α) :
    chain (pushing item) items = many item >>= fun values => pure (items ++ values) := by
  funext text
  unfold chain
  rw [chainUpTo_pushing]
  rfl

theorem many_eq_chain (item : Reader (Option α)) : many item = chain (pushing item) [] := by
  rw [chain_pushing]
  funext text
  rw [bind_apply]
  cases many item text with
  | fail rest => rfl
  | ok values rest => rfl

theorem separated_eq_chain (separator : Reader Unit) (item : Reader α) :
    separated separator item
      = item >>= fun first => chain (pushing (behind separator item)) [first] := by
  simp only [chain_pushing]
  rfl

end Reader

open Reader (pushing behind chain Repeats)

/-! ## Rounds -/

/-- Reads a keyword and a further operand, if the keyword is there. -/
def joinedRound (word : String) (join : Predicate → Predicate → Predicate)
    (operand : Reader Predicate) (left : Predicate) : Reader (Option Predicate) := do
  if ← Reader.accepts (keyword word) then
    let right ← operand
    return some (join left right)
  else return none

/-- Reads an operator and a further operand, if an operator is there. -/
def leftGroupedRound (operator : Reader (Option ArithmeticOperator)) (operand : Reader Expression)
    (left : Expression) : Reader (Option Expression) := do
  match ← operator with
  | some operator =>
    let right ← operand
    return some (.arithmetic operator [left, right])
  | none => return none

/-- Reads bars and a further operand, if the bars are there. -/
def concatenationRound (operand : Reader Expression) (left : Expression) :
    Reader (Option Expression) := do
  if ← Reader.accepts (sign "||") then
    let right ← operand
    return some (.concatenation [left, right])
  else return none

/-- Reads a further part of a dotted name, if one is there. -/
def dottedPart : Reader (Option String) :=
  Reader.optional do
    sign "."
    anyIdentifier

/-- Reads a comma and a further space or a joined collection, if the comma is there. -/
def spacesRound (inner : Inner) (spaces : List Space) : Reader (Option (List Space)) := do
  if ← Reader.accepts (sign ",") then
    if ← Reader.accepts (keyword "in") then
      let join ← collectionJoin
      return some (addToLast join spaces)
    else
      let next ← space inner
      return some (spaces ++ [next])
  else return none

/-! ## Loops -/

/-- The loops of the grammar. -/
inductive Loop where
  | disjunction | conjunction | concatenation | addition | multiplication
  | arguments | searchedWhens | simpleWhens | dottedParts
  | selectItems | spaces | joins | sortItems | assignments | stateFields

namespace Loop

/-- What a loop carries from round to round. -/
abbrev Carried : Loop → Type
  | .disjunction | .conjunction => Predicate
  | .concatenation | .addition | .multiplication => Expression
  | .arguments => List Expression
  | .searchedWhens => List SearchedWhen
  | .simpleWhens => List SimpleWhen
  | .dottedParts => List String
  | .selectItems => List SelectItem
  | .spaces => List Space
  | .joins => List Join
  | .sortItems => List SortItem
  | .assignments => List Assignment
  | .stateFields => List DottedName

/-- One round of a loop. -/
def round (inner : Inner) : (loop : Loop) → loop.Carried → Reader (Option loop.Carried)
  | .disjunction => joinedRound "or" .or (Grammar.conjunction inner)
  | .conjunction => joinedRound "and" .and (negatable inner)
  | .concatenation => concatenationRound (additive inner)
  | .addition => leftGroupedRound (operator ("+", .add) ("-", .subtract)) (multiplicative inner)
  | .multiplication => leftGroupedRound (operator ("*", .multiply) ("/", .divide)) (signed inner)
  | .arguments => pushing (behind (sign ",") inner.expression)
  | .searchedWhens => pushing (searchedWhen inner)
  | .simpleWhens => pushing (simpleWhen inner)
  | .dottedParts => pushing dottedPart
  | .selectItems => pushing (behind (sign ",") (selectItem inner))
  | .spaces => spacesRound inner
  | .joins => pushing (join? inner)
  | .sortItems => pushing (behind (sign ",") (sortItem inner))
  | .assignments => pushing (behind (sign ",") (assignment inner))
  | .stateFields => pushing (behind (sign ",") dottedIdentifier)

/-- The loops stand in the productions, each behind what it begins with. -/
structure InPlace (inner : Inner) (run : (loop : Loop) → loop.Carried → Reader loop.Carried) :
    Prop where
  disjunction : Grammar.disjunction inner = Grammar.conjunction inner >>= run .disjunction
  conjunction : Grammar.conjunction inner = negatable inner >>= run .conjunction
  concatenation : Grammar.concatenation inner = additive inner >>= run .concatenation
  addition : additive inner = multiplicative inner >>= run .addition
  multiplication : multiplicative inner = signed inner >>= run .multiplication
  arguments : Grammar.arguments inner = do
    let first ← inner.expression
    run .arguments [first]
  searchedWhens : Reader.many (searchedWhen inner) = run .searchedWhens []
  simpleWhens : Reader.many (simpleWhen inner) = run .simpleWhens []
  dottedParts : ∀ first, dottedTail first = do
    let parts ← run .dottedParts [first]
    return ⟨parts⟩
  selectItems : Grammar.selectItems inner = do
    let first ← selectItem inner
    run .selectItems [first]
  spaces : Grammar.spaces inner = do
    let first ← space inner
    run .spaces [first]
  joins : space inner = do
    let root ← root
    let joins ← run .joins []
    return ⟨root, joins⟩
  sortItems : orderClause inner = do
    keyword "by"
    let first ← sortItem inner
    run .sortItems [first]
  assignments : Reader.separated (sign ",") (assignment inner) = do
    let first ← assignment inner
    run .assignments [first]
  stateFields : Reader.separated (sign ",") dottedIdentifier = do
    let first ← dottedIdentifier
    run .stateFields [first]

end Loop

theorem dottedTail_eq_chain (first : String) :
    dottedTail first = chain (pushing dottedPart) [first] >>= fun parts => pure ⟨parts⟩ := by
  funext text
  rw [Reader.chain_pushing, Reader.bind_apply, Reader.bind_apply]
  show (Reader.many dottedPart >>= _) text = _
  rw [Reader.bind_apply]
  cases Reader.many dottedPart text with
  | fail rest => rfl
  | ok parts rest => rfl

theorem loops_inPlace (inner : Inner) :
    Loop.InPlace inner fun loop => chain (loop.round inner) where
  disjunction := rfl
  conjunction := rfl
  concatenation := rfl
  addition := rfl
  multiplication := rfl
  arguments := Reader.separated_eq_chain _ _
  searchedWhens := Reader.many_eq_chain _
  simpleWhens := Reader.many_eq_chain _
  dottedParts := dottedTail_eq_chain
  selectItems := Reader.separated_eq_chain _ _
  spaces := rfl
  joins := by
    unfold space
    rw [Reader.many_eq_chain]
    rfl
  sortItems := by
    unfold orderClause
    rw [Reader.separated_eq_chain]
    rfl
  assignments := Reader.separated_eq_chain _ _
  stateFields := Reader.separated_eq_chain _ _

open Reader (accepts optional)

/-! ## Levels and tables -/

/-- The productions that call each other. -/
inductive Level where
  | predicate | conjunction | negatable | primaryPredicate | expressionPredicate
  | expression | additive | multiplicative | signed | primary
  | query | instantiation | statement
  deriving DecidableEq

/-- What a level reads. -/
abbrev Level.Result : Level → Type
  | .predicate | .conjunction | .negatable | .primaryPredicate | .expressionPredicate => Predicate
  | .expression | .additive | .multiplicative | .signed | .primary => Expression
  | .query => Query
  | .instantiation => SelectExpression
  | .statement => Statement

/-- The rank of a level: on the text where it begins, it calls only levels of lower ranks. -/
def Level.rank : Level → Nat
  | .primary | .query | .instantiation => 0
  | .signed | .statement => 1
  | .multiplicative => 2
  | .additive => 3
  | .expression => 4
  | .expressionPredicate => 5
  | .primaryPredicate => 6
  | .negatable => 7
  | .conjunction => 8
  | .predicate => 9

/-- A reader for every level. -/
def Table := (level : Level) → Reader level.Result

/-- The readers of a table through which the grammar enters itself. -/
def Table.inner (table : Table) : Inner :=
  ⟨table .predicate, table .negatable, table .expression, table .signed, table .query,
    table .instantiation⟩

/-! ## Productions over a lower level -/

section

variable (inner : Inner)

/-- Reads a signed expression; without a sign it is read by `primary`. -/
def signedOver (primary : Reader Expression) : Reader Expression := do
  match ← operator ("+", Sign.plus) ("-", Sign.minus) with
  | some sign =>
    let operand ← inner.signed
    return .unary sign operand
  | none => primary

/-- Reads operands with bars between them, grouped from the left. -/
def concatenationOver (additive : Reader Expression) : Reader Expression := do
  let first ← additive
  Reader.chain (fun left => do
    if ← accepts (sign "||") then
      let right ← additive
      return some (.concatenation [left, right])
    else return none) first

/-- Reads a predicate that begins with what `expression` reads. -/
def expressionPredicateOver (expression : Reader Expression) : Reader Predicate := do
  let expression ← expression
  if ← accepts (keyword "is") then isOperand expression
  else operatorOperands inner expression

/-- Reads a predicate without a leading not; the last choice is `expressionPredicate`. -/
def primaryPredicateOver (expressionPredicate : Reader Predicate) : Reader Predicate := do
  if ← accepts (keyword "exists") then existence inner false
  else match ← groupedAlone? inner with
    | some predicate => return predicate
    | none => expressionPredicate

/-- Reads a predicate with any number of leading nots; without one it is read by
`primaryPredicate`. -/
def negatableOver (primaryPredicate : Reader Predicate) : Reader Predicate := fun start =>
  (do
    if ← accepts (keyword "not") then
      if ← accepts (keyword "exists") then existence inner true
      else
        match ← optional inner.negatable with
        | some predicate => return .not predicate
        | none => Reader.failAt start
    else primaryPredicate) start

/-- Reads a statement; what is no update, deletion or insertion is read by `query`. -/
def statementOver (query : Reader Query) : Reader Statement := do
  blanks
  if ← accepts (exactKeyword "update") then update inner
  else if ← accepts (exactKeyword "delete") then deletion inner
  else if ← accepts (exactKeyword "insert") then insertion inner
  else
    let query ← query
    return .select query

end

/-! ## Unfolding -/

/-- The bodies of the productions, over a table for the calls of lower levels and the readers for
the calls that enter the grammar again. -/
def Table.unfoldOver (lower : Table) (inner : Inner) : Table
  | .predicate => joined "or" .or (lower .conjunction)
  | .conjunction => joined "and" .and (lower .negatable)
  | .negatable => negatableOver inner (lower .primaryPredicate)
  | .primaryPredicate => primaryPredicateOver inner (lower .expressionPredicate)
  | .expressionPredicate => expressionPredicateOver inner (lower .expression)
  | .expression => concatenationOver (lower .additive)
  | .additive => leftGrouped (operator ("+", .add) ("-", .subtract)) (lower .multiplicative)
  | .multiplicative => leftGrouped (operator ("*", .multiply) ("/", .divide)) (lower .signed)
  | .signed => signedOver inner (lower .primary)
  | .primary => primary inner
  | .query => query inner
  | .instantiation => instantiation inner
  | .statement => statementOver inner (lower .query)

/-- The bodies of the productions, with all their calls in one table. -/
def Table.unfold (table : Table) : Table := table.unfoldOver table.inner

/-- The levels of the grammar over the readers through which it enters itself. -/
def production (inner : Inner) : Table
  | .predicate => disjunction inner
  | .conjunction => conjunction inner
  | .negatable => negatable inner
  | .primaryPredicate => primaryPredicate inner
  | .expressionPredicate => expressionPredicate inner
  | .expression => concatenation inner
  | .additive => additive inner
  | .multiplicative => multiplicative inner
  | .signed => signed inner
  | .primary => primary inner
  | .query => query inner
  | .instantiation => instantiation inner
  | .statement => statement inner

theorem production_inner (inner : Inner) : (production inner).inner = inner.layer := rfl

/-- The productions call lower levels over the same readers. -/
theorem production_eq_unfoldOver (inner : Inner) :
    production inner = (production inner).unfoldOver inner := by
  funext level
  cases level with
  | predicate => rfl
  | conjunction => rfl
  | negatable => rfl
  | primaryPredicate => rfl
  | expressionPredicate => rfl
  | expression => rfl
  | additive => rfl
  | multiplicative => rfl
  | signed => rfl
  | primary => rfl
  | query => rfl
  | instantiation => rfl
  | statement => rfl

/-! ## The order of calls -/

/-- A call of a level on a text. -/
structure Entry where
  level : Level
  text : List Char

namespace Entry

/-- The number of characters that are left, and then the rank. -/
def measure (entry : Entry) : ℕ ×ₗ ℕ := toLex (entry.text.length, entry.level.rank)

/-- The text of the first call is an end of the other text, and is shorter or has the lower rank. -/
def Precedes (callee caller : Entry) : Prop :=
  callee.text <:+ caller.text ∧ callee.measure < caller.measure

instance (callee caller : Entry) : Decidable (callee.Precedes caller) :=
  inferInstanceAs (Decidable (_ ∧ _))

theorem precedes_iff {callee caller : Entry} :
    callee.Precedes caller ↔ callee.text <:+ caller.text
      ∧ (callee.text.length < caller.text.length
        ∨ callee.text.length = caller.text.length ∧ callee.level.rank < caller.level.rank) := by
  unfold Precedes measure
  rw [Prod.Lex.toLex_lt_toLex]

theorem precedes_of_shorter {callee caller : Entry} (hsuffix : callee.text <:+ caller.text)
    (hshort : callee.text.length < caller.text.length) : callee.Precedes caller :=
  precedes_iff.mpr ⟨hsuffix, .inl hshort⟩

theorem precedes_of_rank {callee caller : Entry} (hsuffix : callee.text <:+ caller.text)
    (hrank : callee.level.rank < caller.level.rank) : callee.Precedes caller := by
  refine precedes_iff.mpr ⟨hsuffix, ?_⟩
  have hle := hsuffix.length_le
  omega

/-- Inside of a parenthesis a level is called that ranks higher, on a shorter text. -/
example : Precedes ⟨.expression, "b)".toList⟩ ⟨.primary, "(b)".toList⟩ := by decide

theorem precedes_wellFounded : WellFounded Precedes :=
  Subrelation.wf (fun h => h.2) (InvImage.wf measure wellFounded_lt)

/-- One step of the recursion: the answer to a call from the answers to those that precede it. Any
other call is refused. -/
def step (entry : Entry)
    (answer : ∀ callee : Entry, callee.Precedes entry → Reply callee.level.Result) :
    Reply entry.level.Result :=
  Table.unfold (fun level text =>
    if h : Precedes ⟨level, text⟩ entry then answer ⟨level, text⟩ h else .fail text)
    entry.level entry.text

end Entry

end EntityQuery.Grammar

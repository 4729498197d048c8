import EntityQuery.Proofs.LeadingTokens
import EntityQuery.Proofs.ReaderRuns
import EntityQuery.Proofs.SpelledTokens

/-!
# Spelled expressions

The grammar reads operands of each level of precedence by the reader of the next level, and groups
them from the left. A ladder is a sequence of such levels; expressions and predicates each have one.
What the productions of expressions read from spelled tokens is said given what the readers of an
`Inner` record read.

* `Reads`: tokens are read as a value, whatever allowed token follows.
* `Ladder`: the levels with the tokens that may follow each of them.
* `Ladder.Ranked`: a value is read at every level up to its rank. `ranked_of_top` and
  `ranked_of_climbs` give this for a value without an operator of the ladder and for one with it.
* `expressionLadder`: the levels of expressions. `ranked_join`, `readsAt_unary` and
  `readsAt_primary` climb it.
* `primary_literal`, `primary_parameter`, `primary_path`, `primary_grouped`, `primary_call`,
  `primary_case`: the expressions without operators.
-/

/-! ## Ladders -/

namespace EntityQuery.Grammar

open Reader

variable {α : Type}

/-- The tokens are read as the value and nothing behind them is, if what follows is allowed. -/
def Reads (reader : Reader α) (tokens : List String) (value : α) (followers : List String) :
    Prop :=
  ∀ following source, Shows (tokens ++ following) source → Follows followers following →
    reader source = .ok value (spaced following)

theorem Reads.mono {reader : Reader α} {tokens : List String} {value : α}
    {followers fewer : List String} (h : Reads reader tokens value followers)
    (hfewer : fewer ⊆ followers) : Reads reader tokens value fewer :=
  fun following source hshows hfollows => h following source hshows (hfollows.mono hfewer)

/-- Levels of precedence. Below the top a level extends what the next level reads. -/
structure Ladder (α : Type) where
  top : Nat
  level : Nat → Reader α
  extension : Nat → α → Reader (Option α)
  /-- The tokens that may follow a value of the level. -/
  followers : Nat → List String
  level_eq : ∀ rank < top,
    level rank = level (rank + 1) >>= fun first => chain (extension rank) first
  followers_subset : ∀ rank, followers rank ⊆ followers (rank + 1)
  /-- What may follow is not taken for an operator of the level. -/
  extension_none : ∀ rank < top, ∀ value following, Follows (followers rank) following →
    extension rank value (spaced following) = .ok none (spaced following)

namespace Ladder

/-- The tokens are read as the value at a level. -/
def ReadsAt (ladder : Ladder α) (rank : Nat) (tokens : List String) (value : α) : Prop :=
  Reads (ladder.level rank) tokens value (ladder.followers rank)

/-- The value is reached by extending an operand of the next level, also where an operator of this
level follows. -/
def ClimbsAt (ladder : Ladder α) (rank : Nat) (tokens : List String) (value : α) : Prop :=
  ∀ following source, Shows (tokens ++ following) source →
    Follows (ladder.followers (rank + 1)) following →
    Climbs (ladder.level (rank + 1)) (ladder.extension rank) source value (spaced following)

section

variable {ladder : Ladder α} {rank : Nat} {tokens : List String} {value : α}

theorem ReadsAt.climbs (h : ladder.ReadsAt (rank + 1) tokens value) :
    ladder.ClimbsAt rank tokens value :=
  fun following source hshows hfollows => climbs_operand (h following source hshows hfollows)

theorem ClimbsAt.reads (h : ladder.ClimbsAt rank tokens value) (hrank : rank < ladder.top) :
    ladder.ReadsAt rank tokens value := by
  intro following source hshows hfollows
  have hclimbs := h following source hshows (hfollows.mono (ladder.followers_subset rank))
  rw [ladder.level_eq rank hrank]
  exact hclimbs.read (ladder.extension_none rank hrank value following hfollows)

/-- What is read at a level is read at every lower level. -/
theorem ReadsAt.lower (h : ladder.ReadsAt rank tokens value) (hrank : rank ≤ ladder.top)
    {lower : Nat} (hlower : lower ≤ rank) : ladder.ReadsAt lower tokens value := by
  induction rank with
  | zero =>
    have hzero : lower = 0 := by omega
    rw [hzero]
    exact h
  | succ rank ih =>
    by_cases hsame : lower = rank + 1
    · rw [hsame]
      exact h
    · exact ih (h.climbs.reads (by omega)) (by omega) (by omega)

/-- An operand that is reached is extended by an operator of its level with a further operand. -/
theorem ClimbsAt.extended {left : α} {leftTokens rightTokens : List String} {symbol : String}
    (hleft : ladder.ClimbsAt rank leftTokens left)
    (hsymbol : symbol ∈ ladder.followers (rank + 1))
    (hnext : ∀ following, Follows (ladder.followers (rank + 1)) following →
      ladder.extension rank left (spaced (symbol :: (rightTokens ++ following)))
        = .ok (some value) (spaced following)) :
    ladder.ClimbsAt rank (leftTokens ++ symbol :: rightTokens) value := by
  intro following source hshows hfollows
  rw [List.append_assoc] at hshows
  have hclimbs := hleft _ source hshows (follows_cons hsymbol _)
  refine hclimbs.extended (hnext following hfollows) ?_
  simp only [List.cons_append, spaced_cons, spaced_append, List.length_cons, List.length_append]
  omega

/-- The value is read at every level up to its rank, and reached there by extending its first
operand. -/
structure Ranked (ladder : Ladder α) (rank : Nat) (tokens : List String) (value : α) : Prop where
  reads : ∀ lower ≤ ladder.top, lower ≤ rank → ladder.ReadsAt lower tokens value
  climbs : ∀ lower < ladder.top, lower ≤ rank → ladder.ClimbsAt lower tokens value

/-- A value of the top level may stand at every level. -/
theorem ranked_of_top (h : ladder.ReadsAt ladder.top tokens value) :
    ladder.Ranked rank tokens value where
  reads _ hlower _ := h.lower (Nat.le_refl _) hlower
  climbs lower hlower _ := by
    have hnext : ladder.ReadsAt (lower + 1) tokens value := h.lower (Nat.le_refl _) hlower
    exact hnext.climbs

/-- A value with an operator of a level may stand at that level and at the lower ones. -/
theorem ranked_of_climbs (hrank : rank < ladder.top) (h : ladder.ClimbsAt rank tokens value) :
    ladder.Ranked rank tokens value := by
  have hreads : ladder.ReadsAt rank tokens value := h.reads hrank
  refine ⟨fun lower _ hlower => hreads.lower (by omega) hlower, ?_⟩
  intro lower htop hlower
  by_cases hsame : lower = rank
  · rw [hsame]
    exact h
  · have hnext : ladder.ReadsAt (lower + 1) tokens value := hreads.lower (by omega) (by omega)
    exact hnext.climbs

end

end Ladder
end EntityQuery.Grammar

/-! ## Levels of precedence -/

namespace EntityQuery.Grammar

open EntityQuery.Phrase
open EntityQuery.Text
open Reader

/-- The tokens that may follow an expression. -/
def closers : List String :=
  [")", ",", "=", "<>", "<", "<=", ">", ">=", "and", "or", "not", "between", "like", "in",
    "member", "is", "then", "when", "else", "end", "escape"]

/-- The tokens that may follow an operand of a level: the operators of the level and of the lower
ones, and what may follow the whole. -/
def followers : Nat → List String
  | 0 => closers
  | 1 => "||" :: closers
  | 2 => "+" :: "-" :: "||" :: closers
  | _ => "*" :: "/" :: "+" :: "-" :: "||" :: closers

/-- The reader of a level of precedence. -/
def level (inner : Inner) : Nat → Reader Expression
  | 0 => concatenation inner
  | 1 => additive inner
  | 2 => multiplicative inner
  | _ => signed inner

/-- How an expression of a level is extended by one more operand. -/
def extension (inner : Inner) : Nat → Expression → Reader (Option Expression)
  | 0 => fun left => do
    if ← accepts (sign "||") then
      let right ← additive inner
      return some (.concatenation [left, right])
    else return none
  | 1 => fun left => do
    match ← operator ("+", ArithmeticOperator.add) ("-", .subtract) with
    | some operator =>
      let right ← multiplicative inner
      return some (.arithmetic operator [left, right])
    | none => return none
  | _ => fun left => do
    match ← operator ("*", ArithmeticOperator.multiply) ("/", .divide) with
    | some operator =>
      let right ← signed inner
      return some (.arithmetic operator [left, right])
    | none => return none

section

variable {inner : Inner} {following : List String} {source : List Char}

/-! ## Operators -/

theorem operator_first {α : Type} {first second : String × α}
    (h : Shows (first.1 :: following) source) (hsolid : isSolid first.1 = true) :
    operator first second source = .ok (some first.2) (spaced following) :=
  bind_ok (accepts_ok (sign_taken h hsolid))

theorem operator_second {α : Type} {first second : String × α}
    (h : Shows (second.1 :: following) source) (hbars : Bars first.1 (second.1 :: following))
    (hsolid : isSolid second.1 = true) :
    operator first second source = .ok (some second.2) (spaced following) :=
  (bind_ok (accepts_fail (sign_barred h hbars))).trans
    (bind_ok (accepts_ok (sign_taken h hsolid)))

theorem operator_none {α : Type} {first second : String × α} (h : Shows following source)
    (hfirst : Bars first.1 following) (hsecond : Bars second.1 following) :
    operator first second source = .ok none source :=
  (bind_ok (accepts_fail (sign_barred h hfirst))).trans
    (bind_ok (accepts_fail (sign_barred h hsecond)))

theorem extension_none {rank : Nat} (hrank : rank < 3) (left : Expression)
    (hfollows : Follows (followers rank) following) :
    extension inner rank left (spaced following) = .ok none (spaced following) := by
  have hshows := shows_spaced following
  match rank, hrank with
  | 0, _ =>
    have hbars : Bars "||" following := hfollows.bars (by decide)
    exact bind_ok (accepts_fail (sign_barred hshows hbars))
  | 1, _ =>
    have hplus : Bars "+" following := hfollows.bars (by decide)
    have hminus : Bars "-" following := hfollows.bars (by decide)
    exact bind_ok (operator_none hshows hplus hminus)
  | 2, _ =>
    have htimes : Bars "*" following := hfollows.bars (by decide)
    have hover : Bars "/" following := hfollows.bars (by decide)
    exact bind_ok (operator_none hshows htimes hover)

/-- The levels of expressions: concatenation, addition, multiplication and signs. -/
def expressionLadder (inner : Inner) : Ladder Expression where
  top := 3
  level := level inner
  extension := extension inner
  followers := followers
  level_eq
    | 0, _ => rfl
    | 1, _ => rfl
    | 2, _ => rfl
  followers_subset
    | 0 => by decide
    | 1 => by decide
    | 2 => by decide
    | _ + 3 => List.Subset.refl _
  extension_none _ hrank left _ hfollows := extension_none hrank left hfollows

/-- The operator of a level, by its symbol, with what it makes of its operands. -/
inductive Joins : Nat → String → (Expression → Expression → Expression) → Prop where
  | concatenation : Joins 0 "||" fun left right => .concatenation [left, right]
  | arithmetic (operator : ArithmeticOperator) :
    Joins operator.rank operator.symbol fun left right => .arithmetic operator [left, right]

/-- Behind the operator of a level a further operand is read. -/
theorem extension_some {rank : Nat} {symbol : String}
    {join : Expression → Expression → Expression} (hjoins : Joins rank symbol join)
    {left right : Expression}
    (hright : (expressionLadder inner).ReadsAt (rank + 1) right.tokens right)
    (hfollows : Follows (followers (rank + 1)) following) :
    extension inner rank left (spaced (symbol :: (right.tokens ++ following)))
      = .ok (some (join left right)) (spaced following) := by
  have hread := hright following _ (shows_spaced _) hfollows
  have hshows := shows_spaced (symbol :: (right.tokens ++ following))
  cases hjoins with
  | concatenation =>
    have hsign := sign_taken hshows (by decide)
    exact (bind_ok (accepts_ok hsign)).trans (bind_ok hread)
  | arithmetic operator =>
    cases operator with
    | add =>
      have hsign : Grammar.operator ("+", ArithmeticOperator.add) ("-", .subtract) _
          = .ok (some .add) (spaced (right.tokens ++ following)) :=
        operator_first hshows (by decide)
      exact (bind_ok hsign).trans (bind_ok hread)
    | subtract =>
      have hbars : Bars "+" ("-" :: (right.tokens ++ following)) := bars_of_differs (by decide) _
      have hsign : Grammar.operator ("+", ArithmeticOperator.add) ("-", .subtract) _
          = .ok (some .subtract) (spaced (right.tokens ++ following)) :=
        operator_second hshows hbars (by decide)
      exact (bind_ok hsign).trans (bind_ok hread)
    | multiply =>
      have hsign : Grammar.operator ("*", ArithmeticOperator.multiply) ("/", .divide) _
          = .ok (some .multiply) (spaced (right.tokens ++ following)) :=
        operator_first hshows (by decide)
      exact (bind_ok hsign).trans (bind_ok hread)
    | divide =>
      have hbars : Bars "*" ("/" :: (right.tokens ++ following)) := bars_of_differs (by decide) _
      have hsign : Grammar.operator ("*", ArithmeticOperator.multiply) ("/", .divide) _
          = .ok (some .divide) (spaced (right.tokens ++ following)) :=
        operator_second hshows hbars (by decide)
      exact (bind_ok hsign).trans (bind_ok hread)

/-- The expression is read at every level that its outermost operator allows. -/
def ReadsRanked (inner : Inner) (expression : Expression) : Prop :=
  (expressionLadder inner).Ranked expression.rank expression.tokens expression

/-- A left operand of the level of the operator and a right operand of the next level make an
expression of the level of the operator. -/
theorem ranked_join {rank : Nat} {symbol : String} {join : Expression → Expression → Expression}
    (hjoins : Joins rank symbol join) {left right : Expression} (hleft : ReadsRanked inner left)
    (hright : ReadsRanked inner right) (hleftRank : rank ≤ left.rank)
    (hrightRank : rank < right.rank) : ReadsRanked inner (join left right) := by
  have hform : rank < 3 ∧ (join left right).rank = rank
      ∧ (join left right).tokens = left.tokens ++ symbol :: right.tokens
      ∧ symbol ∈ followers (rank + 1) := by
    cases hjoins with
    | concatenation => exact ⟨by decide, rfl, tokens_concatenation, by decide⟩
    | arithmetic operator =>
      cases operator <;> exact ⟨by decide, rfl, tokens_arithmetic _, by decide⟩
  obtain ⟨hthree, hrank, htokens, hsymbol⟩ := hform
  have hclimbs := hleft.climbs rank hthree hleftRank
  have hreads := hright.reads (rank + 1) hthree hrightRank
  unfold ReadsRanked
  rw [hrank, htokens]
  apply Ladder.ranked_of_climbs hthree
  exact hclimbs.extended hsymbol fun _ hfollows => extension_some hjoins hreads hfollows

/-! ## Signs -/

theorem readsAt_unary {sign : Sign} {operand : Expression}
    (h : Reads inner.signed operand.tokens operand (followers 3)) :
    ReadsRanked inner (.unary sign operand) := by
  apply Ladder.ranked_of_top
  intro following source hshows hfollows
  have hread := h following _ (shows_spaced _) hfollows
  rw [Expression.tokens] at hshows
  cases sign with
  | plus =>
    have hsign : operator ("+", Sign.plus) ("-", .minus) source
        = .ok (some .plus) (spaced (operand.tokens ++ following)) :=
      operator_first hshows (by decide)
    exact (bind_ok hsign).trans (bind_ok hread)
  | minus =>
    have hbars : Bars "+" ("-" :: (operand.tokens ++ following)) := bars_of_differs (by decide) _
    have hsign : operator ("+", Sign.plus) ("-", .minus) source
        = .ok (some .minus) (spaced (operand.tokens ++ following)) :=
      operator_second hshows hbars (by decide)
    exact (bind_ok hsign).trans (bind_ok hread)

/-- An expression without operators is read at every level. -/
theorem readsAt_primary {expression : Expression}
    (hopens : ∀ following, Opens closedSigns (expression.tokens ++ following))
    (h : Reads (primary inner) expression.tokens expression (followers 3)) :
    ReadsRanked inner expression := by
  apply Ladder.ranked_of_top
  intro following source hshows hfollows
  have hplus := (hopens following).bars "+" (by decide)
  have hminus := (hopens following).bars "-" (by decide)
  have hread := h following source hshows hfollows
  exact (bind_ok (operator_none hshows hplus hminus)).trans hread

/-! ## Literals, parameters and paths -/

theorem blanks_apply (source : List Char) : blanks source = .ok () (trimStart source) := rfl

/-- What begins with no parenthesis is read as a parameter, a literal, a case, a path or a call. -/
theorem parenthesis_barred {tokens : List String} (hshows : Shows tokens source)
    (hbars : Bars "(" tokens) :
    accepts (sign "(") (trimStart source) = .ok false (trimStart source) :=
  accepts_fail (sign_barred hshows.trimmed hbars)

theorem parameter_none {tokens : List String} (hshows : Shows tokens source)
    (hcolon : Bars ":" tokens) (hmark : Bars "?" tokens) :
    parameter (trimStart source) = .ok none (trimStart source) :=
  (bind_ok (accepts_fail (exactSign_barred hshows hcolon))).trans
    (bind_ok (accepts_fail (exactSign_barred hshows hmark)))

theorem primary_literal {literal : Literal} (h : literal.IsRead) :
    Reads (primary inner) [literal.token] (.literal literal) (followers 3) := by
  intro following source hshows _
  have hopens := literal_opens h following
  have hparenthesis := parenthesis_barred hshows (hopens.bars "(" (by decide))
  have hparameter := parameter_none hshows (hopens.bars ":" (by decide))
    (hopens.bars "?" (by decide))
  have hread := literalToken_spelled (literalForm_of_isRead h) (apart_spaced following)
  rw [← hopens.text hshows] at hread
  exact (bind_ok (blanks_apply source)).trans <| (bind_ok hparenthesis).trans <|
    (bind_ok hparameter).trans (bind_ok (optional_ok hread))

theorem primary_parameter {parameter : Parameter} (h : parameter.IsRead) :
    Reads (primary inner) [parameter.token] (.parameter parameter) (followers 3) := by
  intro following source hshows _
  have hopens := parameter_opens parameter following
  have hparenthesis := parenthesis_barred hshows (hopens.bars "(" (by decide))
  have hread := parameter_spelled h (apart_spaced following)
  rw [← hopens.text hshows] at hread
  exact (bind_ok (blanks_apply source)).trans <| (bind_ok hparenthesis).trans (bind_ok hread)

/-- A word that is not reserved begins a path or a call. -/
theorem primary_word {token word : String} {behind : List Char} {tokens : List String}
    (hword : LeadsWord token word behind) (hshows : Shows (token :: tokens) source) :
    primary inner source = pathOrCall inner (trimStart source) := by
  have hopens := hword.opens tokens
  have hparenthesis := parenthesis_barred hshows (hopens.bars "(" (by decide))
  have hparameter := parameter_none hshows (hopens.bars ":" (by decide))
    (hopens.bars "?" (by decide))
  have hliteral : literalToken (trimStart source) = .fail (trimStart source) := by
    obtain ⟨htext, hends⟩ := hword.shown hshows
    have hwords : ∀ entry ∈ wordLiterals, entry.1 ∈ reservedWords := by decide
    rw [htext]
    apply literalToken_word hword.form hends
    intro entry hentry heq
    apply hword.lowered_not_mem
    rw [heq]
    exact hwords entry hentry
  have hkeyword : "case" ∈ reservedWords := by decide
  have hcase := exactKeyword_lacking hshows (hword.lacks hkeyword tokens)
  exact (bind_ok (blanks_apply source)).trans <| (bind_ok hparenthesis).trans <|
    (bind_ok hparameter).trans <| (bind_ok (optional_fail hliteral)).trans
      (bind_ok (accepts_fail hcase))

theorem identifier_word {token word : String} {behind : List Char} {tokens : List String}
    (hword : LeadsWord token word behind) (hshows : Shows (token :: tokens) source) :
    identifier (trimStart source) = .ok word (behind ++ spaced tokens) := by
  obtain ⟨htext, hends⟩ := hword.shown hshows
  apply wordThat_word _ hword.form hends
  · rw [hword.free]
    rfl
  · rw [trimStart_trimStart, htext]

theorem primary_path {path : DottedName} (h : IsPath path) :
    Reads (primary inner) [path.text] (.path path) (followers 3) := by
  intro following source hshows hfollows
  obtain ⟨first, parts, rfl, hword, hparts⟩ := leadsWord_path h
  have hcall : beginsWithSign "(" (pointed parts ++ spaced following) = false := by
    cases parts with
    | nil => exact beginsWithSign_barred (shows_spaced following) (hfollows.bars (by decide))
    | cons part parts => rfl
  have htail := @dottedTail_spelled first _ _ hparts (hfollows.bars (by decide))
  have hindex := accepts_fail (sign_barred (shows_spaced following)
    (hfollows.bars (by decide) : Bars "[" following))
  have hpath : pathFrom inner first (pointed parts ++ spaced following)
      = .ok (.path ⟨first :: parts⟩) (spaced following) :=
    (bind_ok htail).trans (bind_ok hindex)
  rw [primary_word hword hshows]
  exact (bind_ok (identifier_word hword hshows)).trans <| (bind_ok (look_false hcall)).trans hpath

/-! ## Calls -/

theorem follows_further {items : List Expression} (hfollows : Follows [")"] following) :
    Follows closers (furtherTokens items ++ following) := by
  cases items with
  | nil =>
    rw [furtherTokens]
    exact hfollows.mono (by decide)
  | cons item items =>
    rw [furtherTokens]
    exact follows_cons (by decide) _

/-- The expressions behind the first are read one after another, each behind a comma. -/
theorem further_collects {items : List Expression}
    (hreads : ∀ item ∈ items, Reads inner.expression item.tokens item closers)
    (hfollows : Follows [")"] following) :
    Collects (do
      if ← accepts (sign ",") then
        let value ← inner.expression
        return some value
      else return none) (spaced (furtherTokens items ++ following)) items (spaced following) := by
  induction items with
  | nil =>
    have hcomma := sign_barred (shows_spaced following) (hfollows.bars (by decide) : Bars "," _)
    rw [furtherTokens]
    exact .done (bind_ok (accepts_fail hcomma))
  | cons item items ih =>
    obtain ⟨hitem, hitems⟩ := List.forall_mem_cons.mp hreads
    have htokens : furtherTokens (item :: items) ++ following
        = "," :: (item.tokens ++ (furtherTokens items ++ following)) := by
      simp [furtherTokens]
    have hcomma := sign_spaced "," (item.tokens ++ (furtherTokens items ++ following)) (by decide)
    have hread := hitem (furtherTokens items ++ following) _ (shows_spaced _)
      (follows_further hfollows)
    rw [htokens]
    refine .more ((bind_ok (accepts_ok hcomma)).trans (bind_ok hread)) ?_ (ih hitems)
    simp only [spaced_cons, spaced_append, List.length_cons, List.length_append]
    omega

/-- Expressions with commas between them are read up to a parenthesis. -/
theorem arguments_spelled {items : List Expression} (hitems : items ≠ [])
    (hreads : ∀ item ∈ items, Reads inner.expression item.tokens item closers) :
    Reads (arguments inner) (argumentTokens items) items [")"] := by
  intro following source hshows hfollows
  cases items with
  | nil => exact absurd rfl hitems
  | cons first items =>
    obtain ⟨hfirst, hothers⟩ := List.forall_mem_cons.mp hreads
    rw [argumentTokens, List.append_assoc] at hshows
    have hread := hfirst _ _ hshows (follows_further hfollows)
    have hcollects := further_collects hothers hfollows
    exact (bind_ok hread).trans (bind_ok hcollects.many)

/-- The tokens of expressions begin with those of the first. -/
theorem opens_arguments {items : List Expression} (hitems : items ≠ [])
    (hopens : ∀ item ∈ items, ∀ following, Opens [")", "*"] (item.tokens ++ following))
    (following : List String) : Opens [")", "*"] (argumentTokens items ++ following) := by
  cases items with
  | nil => exact absurd rfl hitems
  | cons first items =>
    rw [argumentTokens, List.append_assoc]
    exact hopens first (by simp) _

theorem call_star {name : String} :
    Reads (call inner name) ["(", "*", ")"] (.call name false false true []) (followers 3) := by
  intro following source hshows _
  have hopen := sign_taken hshows (by decide)
  have hstar := sign_spaced "*" (")" :: following) (by decide)
  have hclose := sign_spaced ")" following (by decide)
  exact (bind_ok hopen).trans <| (bind_ok (accepts_ok hstar)).trans (bind_ok hclose)

theorem call_empty {name : String} :
    Reads (call inner name) ["(", ")"] (.call name false false false []) (followers 3) := by
  intro following source hshows _
  have hopen := sign_taken hshows (by decide)
  have hshown := shows_spaced (")" :: following)
  have hstar := sign_barred hshown (bars_of_differs (by decide) following : Bars "*" _)
  have hlook := beginsWithSign_taken hshown (by decide)
  have hclose := sign_taken hshown (by decide)
  exact (bind_ok hopen).trans <| (bind_ok (accepts_fail hstar)).trans <|
    (bind_ok (look_true hlook)).trans (bind_ok hclose)

theorem call_arguments {name : String} {distinct : Bool} {items : List Expression}
    (hitems : items ≠ [])
    (hopens : ∀ item ∈ items, ∀ following, Opens [")", "*"] (item.tokens ++ following))
    (hreads : ∀ item ∈ items, Reads inner.expression item.tokens item closers) :
    Reads (call inner name)
      ("(" :: (if distinct then ["distinct"] else []) ++ argumentTokens items ++ [")"])
      (.call name false distinct false items) (followers 3) := by
  intro following source hshows _
  have hclosed : Follows [")"] (")" :: following) := follows_cons (by decide) following
  have hread := arguments_spelled hitems hreads _ _ (shows_spaced _) hclosed
  have hclose := sign_spaced ")" following (by decide)
  have hbegins := opens_arguments hitems hopens (")" :: following)
  simp only [List.cons_append, List.append_assoc] at hshows
  have hopen := sign_taken hshows (by decide)
  cases distinct with
  | false =>
    have hshown := shows_spaced (argumentTokens items ++ ")" :: following)
    have hstar := sign_barred hshown (hbegins.bars "*" (by decide))
    have hlook := beginsWithSign_barred hshown (hbegins.bars ")" (by decide))
    have hdistinct := keyword_lacking hshown (hbegins.lacks "distinct" (by decide))
    exact (bind_ok hopen).trans <| (bind_ok (accepts_fail hstar)).trans <|
      (bind_ok (look_false hlook)).trans <| (bind_ok (accepts_fail hdistinct)).trans <|
      (bind_ok hread).trans (bind_ok hclose)
  | true =>
    have hshown := shows_spaced ("distinct" :: (argumentTokens items ++ ")" :: following))
    have hstar := sign_barred hshown (bars_of_differs (by decide) _ : Bars "*" _)
    have hlook := beginsWithSign_barred hshown (bars_of_differs (by decide) _ : Bars ")" _)
    have hdistinct := keyword_taken hshown (by decide)
    exact (bind_ok hopen).trans <| (bind_ok (accepts_fail hstar)).trans <|
      (bind_ok (look_false hlook)).trans <| (bind_ok (accepts_ok hdistinct)).trans <|
      (bind_ok hread).trans (bind_ok hclose)

/-- The choice among the functions with forms of their own falls through for other names. -/
theorem formed_otherwise (word : String)
    (treat key value entry function other : Reader Expression) :
    word ∉ formedFunctions →
      (match word with
        | "treat" => treat
        | "key" => key
        | "value" => value
        | "entry" => entry
        | "function" => function
        | _ => other) = other := by
  intro h
  split
  · exact absurd (by decide) h
  · exact absurd (by decide) h
  · exact absurd (by decide) h
  · exact absurd (by decide) h
  · exact absurd (by decide) h
  · rfl

/-- A name without a form of its own is called with plain arguments. -/
theorem primary_call {name : String} (hname : IsFunction name) {tokens : List String}
    {expression : Expression}
    (h : Reads (call inner name) ("(" :: tokens) expression (followers 3)) :
    Reads (primary inner) (name :: "(" :: tokens) expression (followers 3) := by
  intro following source hshows hfollows
  have hword := leadsWord_function hname
  have hlook := beginsWithSign_taken (shows_spaced ("(" :: (tokens ++ following)))
    (by decide)
  have hread := h following _ (shows_spaced _) hfollows
  have hplain := formed_otherwise (lowered name) treatedPath (mapArgument .key)
    (mapArgument .value) (mapArgument .entry) (genericCall inner) (call inner name) hname.2.2
  rw [primary_word hword hshows]
  exact (bind_ok (identifier_word hword hshows)).trans <| (bind_ok (look_true hlook)).trans <|
    (congrFun hplain _).trans hread

/-! ## Groups -/

/-- What an expression begins with is not a query. -/
theorem beginsQuery_false {signs tokens : List String} (hopens : Opens signs tokens) :
    beginsQuery (spaced tokens) = false := by
  unfold beginsQuery
  rw [beginsWithWord_lacking (shows_spaced tokens) (hopens.lacks "select" (by decide)),
    beginsWithWord_lacking (shows_spaced tokens) (hopens.lacks "from" (by decide))]
  rfl

theorem primary_grouped {expression : Expression}
    (hopens : ∀ following, Opens [")", "*"] (expression.tokens ++ following))
    (h : Reads inner.expression expression.tokens expression closers) :
    Reads (primary inner) ("(" :: expression.tokens ++ [")"]) (.grouped expression)
      (followers 3) := by
  intro following source hshows _
  simp only [List.cons_append, List.append_assoc] at hshows
  have hopen := sign_taken hshows.trimmed (by decide)
  have hshown := shows_spaced (expression.tokens ++ ")" :: following)
  have hquery := beginsQuery_false (hopens (")" :: following))
  have hread := h (")" :: following) _ hshown (follows_cons (by decide) following)
  have hclose := sign_spaced ")" following (by decide)
  exact (bind_ok (blanks_apply source)).trans <| (bind_ok (accepts_ok hopen)).trans <|
    (bind_ok (look_false hquery)).trans <| (bind_ok hread).trans (bind_ok hclose)

/-! ## Cases -/

/-- A case is read behind its keyword. -/
def CaseReads (inner : Inner) (tokens : List String) (expression : Expression) : Prop :=
  ∀ following, caseExpression inner (spaced (tokens ++ following))
    = .ok expression (spaced following)

theorem primary_case {tokens : List String} {expression : Expression}
    (h : CaseReads inner tokens expression) :
    Reads (primary inner) ("case" :: tokens) expression (followers 3) := by
  intro following source hshows _
  have hfirst : Follows ["case"] ("case" :: (tokens ++ following)) :=
    follows_cons (by decide) _
  have hkeyword : "case" ∈ reservedWords := by decide
  have hparenthesis := parenthesis_barred hshows (hfirst.bars (by decide))
  have hparameter := parameter_none hshows (hfirst.bars (by decide)) (hfirst.bars (by decide))
  have hliteral : literalToken (trimStart source) = .fail (trimStart source) := by
    have hword := keyword_word hkeyword
    rw [hshows.text hword.1.solid]
    apply literalToken_word hword.1 (apart_spaced _).endsWord
    decide
  have hcase := exactKeyword_taken hshows hkeyword
  exact (bind_ok (blanks_apply source)).trans <| (bind_ok hparenthesis).trans <|
    (bind_ok hparameter).trans <| (bind_ok (optional_fail hliteral)).trans <|
    (bind_ok (accepts_ok hcase)).trans (h following)

/-- The alternative, if there is one, is read by the reader of expressions. -/
def OptionalReads (inner : Inner) : Option Expression → Prop
  | none => True
  | some expression => Reads inner.expression expression.tokens expression closers

theorem caseEnd_spelled {otherwise : Option Expression} (h : OptionalReads inner otherwise)
    (following : List String) :
    caseEnd inner (spaced (caseEndTokens otherwise ++ following))
      = .ok otherwise (spaced following) := by
  have hend := keyword_spaced "end" following (by decide)
  cases otherwise with
  | none =>
    have helse := keyword_other "else" (shows_spaced ("end" :: following)) (by decide) (by decide)
    rw [caseEndTokens, List.singleton_append]
    exact (bind_ok (accepts_fail helse)).trans (bind_ok hend)
  | some otherwise =>
    have htokens : caseEndTokens (some otherwise) ++ following
        = "else" :: (otherwise.tokens ++ "end" :: following) := by
      simp [caseEndTokens]
    have helse := keyword_spaced "else" (otherwise.tokens ++ "end" :: following) (by decide)
    have hread := h ("end" :: following) _ (shows_spaced _) (follows_cons (by decide) following)
    rw [htokens]
    exact (bind_ok (accepts_ok helse)).trans <| (bind_ok hread).trans (bind_ok hend)

theorem follows_caseEnd (otherwise : Option Expression) (following : List String) :
    Follows ["else", "end"] (caseEndTokens otherwise ++ following) := by
  cases otherwise with
  | none =>
    rw [caseEndTokens]
    exact follows_cons (by decide) _
  | some otherwise =>
    rw [caseEndTokens]
    exact follows_cons (by decide) _

/-- The tokens that may follow a branch. -/
def branchFollowers : List String := ["when", "else", "end"]

/-- Branches are read one after another, up to the alternative or the end of the case. -/
theorem branches_collect {β : Type} {branch? : Reader (Option β)} {tokens : β → List String}
    {branches : List β}
    (hreads : ∀ branch ∈ branches,
      Reads branch? (tokens branch) (some branch) branchFollowers)
    (hbegins : ∀ branch, ∃ rest, tokens branch = "when" :: rest)
    (hnone : Lacks "when" following →
      branch? (spaced following) = .ok none (spaced following))
    (hfollows : Follows ["else", "end"] following) :
    Collects branch? (spaced (branches.flatMap tokens ++ following)) branches
      (spaced following) := by
  induction branches with
  | nil => exact .done (hnone (hfollows.lacks (by decide) (by decide)))
  | cons branch branches ih =>
    obtain ⟨hbranch, hothers⟩ := List.forall_mem_cons.mp hreads
    have hbehind : Follows branchFollowers (branches.flatMap tokens ++ following) := by
      cases branches with
      | nil => exact hfollows.mono (by decide)
      | cons next branches =>
        obtain ⟨rest, hnext⟩ := hbegins next
        rw [List.flatMap_cons, hnext]
        exact follows_cons (by decide) _
    have hread := hbranch _ _ (shows_spaced _) hbehind
    obtain ⟨rest, hfirst⟩ := hbegins branch
    rw [List.flatMap_cons, List.append_assoc]
    refine .more hread ?_ (ih hothers)
    rw [hfirst]
    simp only [List.cons_append, spaced_cons, spaced_append, List.length_cons, List.length_append]
    omega

/-- Both parts of a branch are read by the reader of expressions. -/
def SimpleWhenReads (inner : Inner) : SimpleWhen → Prop
  | .mk value result =>
    Reads inner.expression value.tokens value closers
      ∧ Reads inner.expression result.tokens result closers

/-- The condition of a branch is read by the reader of predicates, its result by that of
expressions. -/
def SearchedWhenReads (inner : Inner) : SearchedWhen → Prop
  | .mk condition result =>
    Reads inner.predicate condition.tokens condition ["then"]
      ∧ Reads inner.expression result.tokens result closers

theorem simpleWhen_spelled {branch : SimpleWhen} (h : SimpleWhenReads inner branch) :
    Reads (simpleWhen inner) branch.tokens (some branch) branchFollowers := by
  intro following source hshows hfollows
  obtain ⟨value, result⟩ := branch
  obtain ⟨hvalue, hresult⟩ := h
  simp only [SimpleWhen.tokens, List.cons_append, List.append_assoc] at hshows
  have hwhen := keyword_taken hshows (by decide)
  have hvalue := hvalue ("then" :: (result.tokens ++ following)) _ (shows_spaced _)
    (follows_cons (by decide) _)
  have hthen := keyword_spaced "then" (result.tokens ++ following) (by decide)
  have hresult := hresult following _ (shows_spaced _) (hfollows.mono (by decide))
  exact (bind_ok (accepts_ok hwhen)).trans <| (bind_ok hvalue).trans <|
    (bind_ok hthen).trans (bind_ok hresult)

theorem searchedWhen_spelled {branch : SearchedWhen} (h : SearchedWhenReads inner branch) :
    Reads (searchedWhen inner) branch.tokens (some branch) branchFollowers := by
  intro following source hshows hfollows
  obtain ⟨condition, result⟩ := branch
  obtain ⟨hcondition, hresult⟩ := h
  simp only [SearchedWhen.tokens, List.cons_append, List.append_assoc] at hshows
  have hwhen := keyword_taken hshows (by decide)
  have hcondition := hcondition ("then" :: (result.tokens ++ following)) _ (shows_spaced _)
    (follows_cons (by decide) _)
  have hthen := keyword_spaced "then" (result.tokens ++ following) (by decide)
  have hresult := hresult following _ (shows_spaced _) (hfollows.mono (by decide))
  exact (bind_ok (accepts_ok hwhen)).trans <| (bind_ok hcondition).trans <|
    (bind_ok hthen).trans (bind_ok hresult)

theorem simpleWhen_begins (branch : SimpleWhen) : ∃ rest, branch.tokens = "when" :: rest := by
  obtain ⟨value, result⟩ := branch
  exact ⟨_, by rw [SimpleWhen.tokens]; rfl⟩

theorem searchedWhen_begins (branch : SearchedWhen) : ∃ rest, branch.tokens = "when" :: rest := by
  obtain ⟨condition, result⟩ := branch
  exact ⟨_, by rw [SearchedWhen.tokens]; rfl⟩

theorem simpleCase_spelled {operand : Expression} {whens : List SimpleWhen}
    {otherwise : Option Expression}
    (hopens : ∀ following, Opens [")", "*"] (operand.tokens ++ following))
    (hoperand : Reads inner.expression operand.tokens operand closers) (hwhens : whens ≠ [])
    (hreads : ∀ branch ∈ whens, SimpleWhenReads inner branch)
    (hotherwise : OptionalReads inner otherwise) :
    CaseReads inner
      (operand.tokens ++ whens.flatMap SimpleWhen.tokens ++ caseEndTokens otherwise)
      (.simpleCase operand whens otherwise) := by
  intro following
  have hend := follows_caseEnd otherwise following
  have hbehind : Follows closers
      (whens.flatMap SimpleWhen.tokens ++ (caseEndTokens otherwise ++ following)) := by
    cases whens with
    | nil => exact hend.mono (by decide)
    | cons branch whens =>
      obtain ⟨rest, hbranch⟩ := simpleWhen_begins branch
      rw [List.flatMap_cons, hbranch]
      exact follows_cons (by decide) _
  rw [List.append_assoc, List.append_assoc]
  have hlook := beginsWithWord_lacking (shows_spaced _) ((hopens
    (whens.flatMap SimpleWhen.tokens ++ (caseEndTokens otherwise ++ following))).lacks "when"
    (by decide))
  have hoperand := hoperand _ _ (shows_spaced _) hbehind
  have hcollects := @branches_collect _ _ (simpleWhen inner) _ _
    (fun branch hbranch => simpleWhen_spelled (hreads branch hbranch)) simpleWhen_begins
    (fun hlacks => bind_ok (accepts_fail (keyword_lacking (shows_spaced _) hlacks))) hend
  have hsome : whens.isEmpty = false := by simpa using hwhens
  refine (bind_ok (look_false hlook)).trans <| (bind_ok hoperand).trans <|
    (bind_ok hcollects.many).trans ?_
  rw [hsome]
  exact bind_ok (caseEnd_spelled hotherwise following)

theorem searchedCase_spelled {whens : List SearchedWhen} {otherwise : Option Expression}
    (hwhens : whens ≠ []) (hreads : ∀ branch ∈ whens, SearchedWhenReads inner branch)
    (hotherwise : OptionalReads inner otherwise) :
    CaseReads inner (whens.flatMap SearchedWhen.tokens ++ caseEndTokens otherwise)
      (.searchedCase whens otherwise) := by
  intro following
  have hend := follows_caseEnd otherwise following
  rw [List.append_assoc]
  have hlook : beginsWithWord "when"
      (spaced (whens.flatMap SearchedWhen.tokens ++ (caseEndTokens otherwise ++ following)))
      = true := by
    cases whens with
    | nil => exact absurd rfl hwhens
    | cons branch whens =>
      obtain ⟨rest, hbranch⟩ := searchedWhen_begins branch
      rw [List.flatMap_cons, hbranch]
      exact beginsWithWord_taken (shows_spaced _) (by decide)
  have hcollects := @branches_collect _ _ (searchedWhen inner) _ _
    (fun branch hbranch => searchedWhen_spelled (hreads branch hbranch)) searchedWhen_begins
    (fun hlacks => bind_ok (accepts_fail (keyword_lacking (shows_spaced _) hlacks))) hend
  exact (bind_ok (look_true hlook)).trans <| (bind_ok hcollects.many).trans
    (bind_ok (caseEnd_spelled hotherwise following))

end

end EntityQuery.Grammar

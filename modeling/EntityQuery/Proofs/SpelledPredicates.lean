import EntityQuery.Grammar.Predicate
import EntityQuery.Proofs.SpelledExpressions

/-!
# Spelled predicates

What the productions of predicates read from spelled tokens, given what the readers of an `Inner`
record read.

* `predicateLadder`: the levels of predicates. `ranked_and`, `ranked_or` and `ranked_not`
  climb it.
* `Grouping`: a parenthesis that opens an expression is not taken for one that opens a predicate.
  `predicate_refused` is the reason: behind the expression there is no operator of a predicate.
-/

namespace EntityQuery.Grammar

open EntityQuery.Phrase
open EntityQuery.Text
open Reader

/-! ## Levels of precedence -/

/-- The tokens that may follow a predicate of a level: the connectives of the level and of the lower
ones, and what may follow the whole. -/
def predicateFollowers : Nat → List String
  | 0 => [")", "then"]
  | 1 => ["or", ")", "then"]
  | _ => ["and", "or", ")", "then"]

/-- The reader of a level of predicates. -/
def predicateLevel (inner : Inner) : Nat → Reader Predicate
  | 0 => disjunction inner
  | 1 => conjunction inner
  | _ => negatable inner

/-- How a predicate is extended by a connective with one more operand. -/
def junction (word : String) (join : Predicate → Predicate → Predicate)
    (operand : Reader Predicate) (left : Predicate) : Reader (Option Predicate) := do
  if ← accepts (keyword word) then
    let right ← operand
    return some (join left right)
  else return none

/-- How a predicate of a level is extended by one more operand. -/
def predicateExtension (inner : Inner) : Nat → Predicate → Reader (Option Predicate)
  | 0 => junction "or" .or (conjunction inner)
  | _ => junction "and" .and (negatable inner)

section

variable {inner : Inner} {following : List String} {source : List Char}

theorem junction_none {word : String} {join : Predicate → Predicate → Predicate}
    {operand : Reader Predicate} (left : Predicate) (hlacks : Lacks word following) :
    junction word join operand left (spaced following) = .ok none (spaced following) :=
  bind_ok (accepts_fail (keyword_lacking (shows_spaced following) hlacks))

theorem junction_some {word : String} {join : Predicate → Predicate → Predicate}
    {operand : Reader Predicate} {left right : Predicate} {tokens : List String}
    (hword : word ∈ reservedWords)
    (hright : operand (spaced (tokens ++ following)) = .ok right (spaced following)) :
    junction word join operand left (spaced (word :: (tokens ++ following)))
      = .ok (some (join left right)) (spaced following) :=
  (bind_ok (accepts_ok (keyword_taken (shows_spaced _) hword))).trans (bind_ok hright)

/-- The levels of predicates: or, and, not. -/
def predicateLadder (inner : Inner) : Ladder Predicate where
  top := 2
  level := predicateLevel inner
  extension := predicateExtension inner
  followers := predicateFollowers
  level_eq
    | 0, _ => rfl
    | 1, _ => rfl
  followers_subset
    | 0 => by decide
    | 1 => by decide
    | _ + 2 => List.Subset.refl _
  extension_none
    | 0, _, left, _, hfollows => junction_none left (hfollows.lacks (by decide) (by decide))
    | 1, _, left, _, hfollows => junction_none left (hfollows.lacks (by decide) (by decide))

/-- The predicate is read at every level that its outermost connective allows. -/
def PredicateRanked (inner : Inner) (predicate : Predicate) : Prop :=
  (predicateLadder inner).Ranked predicate.rank predicate.tokens predicate

theorem ranked_and {left right : Predicate} (hleft : PredicateRanked inner left)
    (hright : PredicateRanked inner right) (hleftRank : 1 ≤ left.rank)
    (hrightRank : 1 < right.rank) : PredicateRanked inner (.and left right) := by
  have hclimbs := hleft.climbs 1 Nat.one_lt_two hleftRank
  have hreads := hright.reads 2 (Nat.le_refl 2) hrightRank
  unfold PredicateRanked
  rw [Predicate.rank, Predicate.tokens]
  apply Ladder.ranked_of_climbs Nat.one_lt_two
  apply hclimbs.extended List.mem_cons_self
  intro following hfollows
  exact junction_some (by decide) (hreads following _ (shows_spaced _) hfollows)

theorem ranked_or {left right : Predicate} (hleft : PredicateRanked inner left)
    (hright : PredicateRanked inner right) (hrightRank : 0 < right.rank) :
    PredicateRanked inner (.or left right) := by
  have hclimbs := hleft.climbs 0 Nat.zero_lt_two (Nat.zero_le _)
  have hreads := hright.reads 1 Nat.one_lt_two.le hrightRank
  unfold PredicateRanked
  rw [Predicate.rank, Predicate.tokens]
  apply Ladder.ranked_of_climbs Nat.zero_lt_two
  apply hclimbs.extended List.mem_cons_self
  intro following hfollows
  exact junction_some (by decide) (hreads following _ (shows_spaced _) hfollows)

/-! ## Negation and existence -/

theorem ranked_not {predicate : Predicate}
    (hbegins : ∀ following, Lacks "exists" (predicate.tokens ++ following))
    (h : Reads inner.negatable predicate.tokens predicate (predicateFollowers 2)) :
    PredicateRanked inner (.not predicate) := by
  apply Ladder.ranked_of_top
  intro following source hshows hfollows
  rw [Predicate.tokens] at hshows
  have hnot := keyword_taken hshows (by decide)
  have hexists := keyword_lacking (shows_spaced _) (hbegins following)
  have hread := h following _ (shows_spaced _) hfollows
  exact (bind_ok (accepts_ok hnot)).trans <| (bind_ok (accepts_fail hexists)).trans
    (bind_ok (optional_ok hread))

theorem predicateFollowers_subset : predicateFollowers 2 ⊆ closers := by decide

/-- An expression is read as an operand of a predicate. -/
theorem ReadsRanked.operand {expression : Expression} (h : ReadsRanked inner expression) :
    Reads (concatenation inner) expression.tokens expression closers :=
  h.reads 0 (Nat.zero_le _) (Nat.zero_le _)

theorem ranked_existence {expression : Expression} {negated : Bool}
    (h : ReadsRanked inner expression) :
    PredicateRanked inner (.existence expression negated) := by
  apply Ladder.ranked_of_top
  intro following source hshows hfollows
  have hread : existence inner negated (spaced (expression.tokens ++ following))
      = .ok (.existence expression negated) (spaced following) :=
    bind_ok (h.operand following _ (shows_spaced _) (hfollows.mono predicateFollowers_subset))
  rw [Predicate.tokens] at hshows
  cases negated with
  | false =>
    have hnot := keyword_other "not" hshows (by decide) (by decide)
    have hexists := keyword_taken hshows (by decide)
    exact (bind_ok (accepts_fail hnot)).trans <| (bind_ok (accepts_ok hexists)).trans hread
  | true =>
    have hnot := keyword_taken hshows (by decide)
    have hexists := keyword_spaced "exists" (expression.tokens ++ following) (by decide)
    exact (bind_ok (accepts_ok hnot)).trans <| (bind_ok (accepts_ok hexists)).trans hread

/-! ## Operators of predicates -/

/-- What is read of a predicate behind the expression that it begins with. -/
def predicateTail (inner : Inner) (expression : Expression) : Reader Predicate := do
  if ← accepts (keyword "is") then isOperand expression
  else operatorOperands inner expression

/-- The tokens are read as the rest of a predicate behind its first expression. -/
def TailReads (inner : Inner) (expression : Expression) (tokens : List String)
    (predicate : Predicate) : Prop :=
  ∀ following, Follows (predicateFollowers 2) following →
    predicateTail inner expression (spaced (tokens ++ following)) = .ok predicate (spaced following)

/-- A word behind an optional not. -/
theorem negation_read {word : String} (hword : lacking "not" word = true) (negated : Bool)
    (rest : List String) :
    accepts (keyword "not") (spaced (negation negated ++ word :: rest))
      = .ok negated (spaced (word :: rest)) := by
  cases negated with
  | false =>
    exact accepts_fail (keyword_other "not" (shows_spaced (word :: rest)) (by decide) hword)
  | true => exact accepts_ok (keyword_taken (shows_spaced ("not" :: word :: rest)) (by decide))

theorem follows_negation {words : List String} {word : String} (hnot : "not" ∈ words)
    (hword : word ∈ words) (negated : Bool) (rest : List String) :
    Follows words (negation negated ++ word :: rest) := by
  cases negated with
  | false => exact follows_cons hword _
  | true => exact follows_cons hnot _

/-- The operators that are words and may be negated, with the readers of their operands. -/
def wordOperators (inner : Inner) (expression : Expression) (negated : Bool) :
    List (String × Reader Predicate) :=
  [("between", betweenOperands inner expression negated),
    ("like", likeOperands inner expression negated),
    ("in", inOperand inner expression negated),
    ("member", memberOperand inner expression negated)]

/-- Behind the word of an operator its operands are read. -/
theorem predicateTail_word {expression : Expression} {negated : Bool}
    {entry : String × Reader Predicate} (h : entry ∈ wordOperators inner expression negated)
    (rest : List String) :
    predicateTail inner expression (spaced (negation negated ++ entry.1 :: rest))
      = entry.2 (spaced rest) := by
  have hwords : entry.1 ∈ ["between", "like", "in", "member"] := List.mem_map_of_mem h
  have hfirst : Follows ["not", "between", "like", "in", "member"]
      (negation negated ++ entry.1 :: rest) :=
    follows_negation (by decide) (List.mem_cons_of_mem _ hwords) negated rest
  have his := keyword_lacking (shows_spaced _) (hfirst.lacks (by decide) (by decide) : Lacks "is" _)
  have hnot : ∀ word ∈ ["between", "like", "in", "member"], lacking "not" word = true := by decide
  have hnegated := negation_read (hnot _ hwords) negated rest
  refine (bind_ok (accepts_fail his)).trans <| (bind_ok hnegated).trans ?_
  simp only [wordOperators, List.mem_cons, List.not_mem_nil, or_false] at h
  rcases h with rfl | rfl | rfl | rfl
  · have hword := keyword_spaced "between" rest (by decide)
    exact bind_ok (accepts_ok hword)
  · have hshows := shows_spaced ("like" :: rest)
    have hbetween := keyword_other "between" hshows (by decide) (by decide)
    have hword := keyword_taken hshows (by decide)
    exact (bind_ok (accepts_fail hbetween)).trans (bind_ok (accepts_ok hword))
  · have hshows := shows_spaced ("in" :: rest)
    have hbetween := keyword_other "between" hshows (by decide) (by decide)
    have hlike := keyword_other "like" hshows (by decide) (by decide)
    have hword := keyword_taken hshows (by decide)
    exact (bind_ok (accepts_fail hbetween)).trans <| (bind_ok (accepts_fail hlike)).trans
      (bind_ok (accepts_ok hword))
  · have hshows := shows_spaced ("member" :: rest)
    have hbetween := keyword_other "between" hshows (by decide) (by decide)
    have hlike := keyword_other "like" hshows (by decide) (by decide)
    have hin := keyword_other "in" hshows (by decide) (by decide)
    have hword := keyword_taken hshows (by decide)
    exact (bind_ok (accepts_fail hbetween)).trans <| (bind_ok (accepts_fail hlike)).trans <|
      (bind_ok (accepts_fail hin)).trans (bind_ok (accepts_ok hword))

theorem between_spelled {expression lower upper : Expression} {negated : Bool}
    (hlower : ReadsRanked inner lower) (hupper : ReadsRanked inner upper) :
    TailReads inner expression
      (negation negated ++ "between" :: lower.tokens ++ "and" :: upper.tokens)
      (.between expression lower upper negated) := by
  intro following hfollows
  have hlower := hlower.operand ("and" :: (upper.tokens ++ following)) _ (shows_spaced _)
    (follows_cons (by decide) _)
  have hand := keyword_spaced "and" (upper.tokens ++ following) (by decide)
  have hupper := hupper.operand following _ (shows_spaced _)
    (hfollows.mono predicateFollowers_subset)
  simp only [List.append_assoc, List.cons_append]
  have hword : ("between", betweenOperands inner expression negated)
      ∈ wordOperators inner expression negated := by simp [wordOperators]
  refine (predicateTail_word hword _).trans ?_
  exact (bind_ok hlower).trans <| (bind_ok hand).trans (bind_ok hupper)

theorem like_spelled {expression pattern : Expression} {escape : Option Expression}
    {negated : Bool} (hpattern : ReadsRanked inner pattern)
    (hescape : ∀ found ∈ escape, ReadsRanked inner found) :
    TailReads inner expression (negation negated ++ "like" :: pattern.tokens ++ escapeTokens escape)
      (.like expression pattern escape negated) := by
  intro following hfollows
  have hword : ("like", likeOperands inner expression negated)
      ∈ wordOperators inner expression negated := by simp [wordOperators]
  simp only [List.append_assoc, List.cons_append]
  refine (predicateTail_word hword _).trans ?_
  cases escape with
  | none =>
    have hpattern := hpattern.operand following _ (shows_spaced _)
      (hfollows.mono predicateFollowers_subset)
    have hescape := keyword_lacking (shows_spaced following)
      (hfollows.lacks (by decide) (by decide) : Lacks "escape" _)
    rw [escapeTokens, List.nil_append]
    exact (bind_ok hpattern).trans (bind_ok (accepts_fail hescape))
  | some escape =>
    have hpattern := hpattern.operand ("escape" :: (escape.tokens ++ following)) _
      (shows_spaced _) (follows_cons (by decide) _)
    have hword := keyword_spaced "escape" (escape.tokens ++ following) (by decide)
    have hescape := (hescape escape rfl).operand following _ (shows_spaced _)
      (hfollows.mono predicateFollowers_subset)
    rw [escapeTokens, List.cons_append]
    exact (bind_ok hpattern).trans <| (bind_ok (accepts_ok hword)).trans (bind_ok hescape)

theorem inList_spelled {expression : Expression} {items : List Expression} {negated : Bool}
    (hitems : items ≠ [])
    (hopens : ∀ item ∈ items, ∀ following, Opens [")", "*"] (item.tokens ++ following))
    (hreads : ∀ item ∈ items, Reads inner.expression item.tokens item closers) :
    TailReads inner expression (negation negated ++ "in" :: "(" :: argumentTokens items ++ [")"])
      (.inList expression items negated) := by
  intro following _
  have hword : ("in", inOperand inner expression negated)
      ∈ wordOperators inner expression negated := by simp [wordOperators]
  have hopen := sign_taken (shows_spaced ("(" :: (argumentTokens items ++ ")" :: following)))
    (by decide)
  have hquery := beginsQuery_false (opens_arguments hitems hopens (")" :: following))
  have hread := arguments_spelled hitems hreads (")" :: following) _ (shows_spaced _)
    (follows_cons (by decide) _)
  have hclose := sign_spaced ")" following (by decide)
  simp only [List.append_assoc, List.cons_append, List.nil_append]
  refine (predicateTail_word hword _).trans ?_
  exact (bind_ok (accepts_ok hopen)).trans <| (bind_ok (look_false hquery)).trans <|
    (bind_ok hread).trans (bind_ok hclose)

theorem memberOf_spelled {element collection : Expression} {negated : Bool}
    (hcollection : ReadsRanked inner collection) :
    TailReads inner element (negation negated ++ "member" :: "of" :: collection.tokens)
      (.memberOf element collection negated) := by
  intro following hfollows
  have hword : ("member", memberOperand inner element negated)
      ∈ wordOperators inner element negated := by simp [wordOperators]
  have hof := keyword_spaced "of" (collection.tokens ++ following) (by decide)
  have hread := hcollection.operand following _ (shows_spaced _)
    (hfollows.mono predicateFollowers_subset)
  simp only [List.append_assoc, List.cons_append]
  refine (predicateTail_word hword _).trans ?_
  exact (bind_ok (accepts_ok hof)).trans (bind_ok hread)

/-! ## Properties and comparisons -/

theorem isNull_spelled {expression : Expression} {negated : Bool} :
    TailReads inner expression ("is" :: negation negated ++ ["null"])
      (.isNull expression negated) := by
  intro following _
  have his := keyword_spaced "is" (negation negated ++ "null" :: following) (by decide)
  have hnegated := @negation_read "null" (by decide) negated following
  have hnull := keyword_spaced "null" following (by decide)
  simp only [List.append_assoc, List.cons_append, List.nil_append]
  exact (bind_ok (accepts_ok his)).trans <| (bind_ok hnegated).trans (bind_ok (accepts_ok hnull))

theorem isEmpty_spelled {expression : Expression} {negated : Bool} :
    TailReads inner expression ("is" :: negation negated ++ ["empty"])
      (.isEmpty expression negated) := by
  intro following _
  have his := keyword_spaced "is" (negation negated ++ "empty" :: following) (by decide)
  have hnegated := @negation_read "empty" (by decide) negated following
  have hnull := keyword_other "null" (shows_spaced ("empty" :: following)) (by decide) (by decide)
  have hempty := keyword_spaced "empty" following (by decide)
  simp only [List.append_assoc, List.cons_append, List.nil_append]
  exact (bind_ok (accepts_ok his)).trans <| (bind_ok hnegated).trans <|
    (bind_ok (accepts_fail hnull)).trans (bind_ok hempty)

/-- The keywords that follow the first expression of a predicate. -/
def tailKeywords : List String := ["is", "not", "between", "like", "in", "member"]

theorem Follows.lacks_tail {followers : List String} (h : Follows followers following)
    (hall : tailKeywords.all (fun keyword => followers.all (lacking keyword)) = true) :
    ∀ keyword ∈ tailKeywords, Lacks keyword following := by
  have hreserved : tailKeywords ⊆ reservedWords := by decide
  intro keyword hkeyword
  exact h.lacks (hreserved hkeyword) (List.all_eq_true.mp hall keyword hkeyword)

/-- Where none of the keywords follows, the first expression has to be compared. -/
theorem predicateTail_compared {expression : Expression}
    (hlacks : ∀ keyword ∈ tailKeywords, Lacks keyword following) :
    predicateTail inner expression (spaced following) = (do
      let operator ← comparisonOperator
      let right ← concatenation inner
      return .comparison operator expression right : Reader Predicate) (spaced following) := by
  have hshows := shows_spaced following
  have his := keyword_lacking hshows (hlacks "is" (by decide))
  have hnot := keyword_lacking hshows (hlacks "not" (by decide))
  have hbetween := keyword_lacking hshows (hlacks "between" (by decide))
  have hlike := keyword_lacking hshows (hlacks "like" (by decide))
  have hin := keyword_lacking hshows (hlacks "in" (by decide))
  have hmember := keyword_lacking hshows (hlacks "member" (by decide))
  exact (bind_ok (accepts_fail his)).trans <| (bind_ok (accepts_fail hnot)).trans <|
    (bind_ok (accepts_fail hbetween)).trans <| (bind_ok (accepts_fail hlike)).trans <|
    (bind_ok (accepts_fail hin)).trans (bind_ok (accepts_fail hmember))

theorem comparisonOperator_spelled (operator : ComparisonOperator) (token : String)
    (tokens : List String) :
    comparisonOperator (spaced (operator.symbol :: token :: tokens))
      = .ok operator (spaced (token :: tokens)) := by
  cases operator <;> rfl

theorem comparison_spelled {operator : ComparisonOperator} {left right : Expression}
    (hright : ReadsRanked inner right) (htokens : right.tokens ≠ []) :
    TailReads inner left (operator.symbol :: right.tokens) (.comparison operator left right) := by
  intro following hfollows
  have hsymbol : Follows ["=", "<>", "<", "<=", ">", ">="]
      (operator.symbol :: (right.tokens ++ following)) := by
    apply follows_cons
    cases operator <;> decide
  have hlacks := hsymbol.lacks_tail (by decide)
  have hoperator : comparisonOperator (spaced (operator.symbol :: (right.tokens ++ following)))
      = .ok operator (spaced (right.tokens ++ following)) := by
    cases hform : right.tokens with
    | nil => exact absurd hform htokens
    | cons token tokens => exact comparisonOperator_spelled operator token (tokens ++ following)
  have hright := hright.operand following _ (shows_spaced _)
    (hfollows.mono predicateFollowers_subset)
  rw [List.cons_append]
  exact (predicateTail_compared hlacks).trans <| (bind_ok hoperator).trans (bind_ok hright)

/-! ## Groups -/

/-- A parenthesis that opens the expression is not taken for one that opens a predicate. -/
def Grouping (inner : Inner) (expression : Expression) : Prop :=
  ∀ following source, Shows (expression.tokens ++ following) source →
    groupedAlone? inner source = .ok none source

/-- An expression with a parenthesis behind it is not read as a predicate: it has no operator. -/
theorem predicate_refused {expression : Expression}
    (hopens : ∀ following, Opens [")", "*"] (expression.tokens ++ following))
    (hgrouping : Grouping inner expression) (hread : ReadsRanked inner expression)
    (h : Shows (expression.tokens ++ ")" :: following) source) :
    ∃ rest, disjunction inner source = .fail rest := by
  have hbegins := hopens (")" :: following)
  have hnot := keyword_lacking h (hbegins.lacks "not" (by decide))
  have hexists := keyword_lacking h (hbegins.lacks "exists" (by decide))
  have hgroup := hgrouping _ source h
  have hclose : Follows [")"] (")" :: following) := follows_cons (by decide) following
  have hexpression := hread.operand _ source h (hclose.mono (by decide))
  have hlacks := hclose.lacks_tail (by decide)
  have hoperator : comparisonOperator (spaced (")" :: following))
      = .fail (trimStart (spaced (")" :: following))) := rfl
  have htail : predicateTail inner expression (spaced (")" :: following))
      = .fail (trimStart (spaced (")" :: following))) :=
    (predicateTail_compared hlacks).trans (bind_fail hoperator)
  have hprimary : negatable inner source = .fail (trimStart (spaced (")" :: following))) :=
    (bind_ok (accepts_fail hnot)).trans <| (bind_ok (accepts_fail hexists)).trans <|
      (bind_ok hgroup).trans <| (bind_ok hexpression).trans htail
  exact ⟨_, bind_fail (bind_fail hprimary)⟩

theorem grouping_of_bars {expression : Expression}
    (h : ∀ following, Bars "(" (expression.tokens ++ following)) : Grouping inner expression := by
  intro following source hshows
  have hlook := beginsWithSign_barred hshows (h following)
  exact optional_fail (bind_ok (look_false hlook))

/-- The parenthesis of a group is not taken for one of a predicate. -/
theorem grouping_grouped {expression : Expression}
    (hopens : ∀ following, Opens [")", "*"] (expression.tokens ++ following))
    (hrefused : ∀ following,
      ∃ rest, inner.predicate (spaced (expression.tokens ++ ")" :: following)) = .fail rest) :
    Grouping inner (.grouped expression) := by
  intro following source hshows
  simp only [Expression.tokens, List.cons_append, List.append_assoc, List.nil_append] at hshows
  obtain ⟨rest, hfail⟩ := hrefused following
  have hlook := beginsWithSign_taken hshows (by decide)
  have hopen := sign_taken hshows (by decide)
  have hquery := beginsQuery_false (hopens (")" :: following))
  have hgroup : groupedPredicate inner source = .fail rest :=
    (bind_ok hopen).trans <| (bind_ok (look_false hquery)).trans (bind_fail hfail)
  exact optional_fail ((bind_ok (look_true hlook)).trans (bind_fail hgroup))

/-- What may follow a predicate does not continue an expression. -/
theorem continuesExpression_false (hfollows : Follows (predicateFollowers 2) following) :
    continuesExpression (spaced following) = false := by
  have hsigns : ∀ sign ∈ continuingSigns, barring sign (predicateFollowers 2) = true := by decide
  have hwords : ∀ word ∈ continuingWords, word ∈ reservedWords
      ∧ (predicateFollowers 2).all (lacking word) = true := by
    decide
  unfold continuesExpression
  rw [Bool.or_eq_false_iff, List.any_eq_false, List.any_eq_false]
  refine ⟨?_, ?_⟩
  · intro sign hsign
    rw [beginsWithSign_barred (shows_spaced following) (hfollows.bars (hsigns sign hsign))]
    exact Bool.false_ne_true
  · intro word hword
    obtain ⟨hreserved, hlacking⟩ := hwords word hword
    rw [beginsWithWord_lacking (shows_spaced following) (hfollows.lacks hreserved hlacking)]
    exact Bool.false_ne_true

/-- A predicate in parentheses is read. -/
theorem ranked_grouped {predicate : Predicate}
    (hquery : ∀ following, beginsQuery (spaced (predicate.tokens ++ following)) = false)
    (h : Reads inner.predicate predicate.tokens predicate (predicateFollowers 0)) :
    PredicateRanked inner (.grouped predicate) := by
  apply Ladder.ranked_of_top
  intro following source hshows hfollows
  simp only [tokens_groupedPredicate, List.cons_append, List.append_assoc, List.nil_append]
    at hshows
  have hnot := keyword_other "not" hshows (by decide) (by decide)
  have hexists := keyword_other "exists" hshows (by decide) (by decide)
  have hlook := beginsWithSign_taken hshows (by decide)
  have hopen := sign_taken hshows (by decide)
  have hread := h (")" :: following) _ (shows_spaced _) (follows_cons (by decide) following)
  have hclose := sign_spaced ")" following (by decide)
  have hgroup : groupedPredicate inner source = .ok (.grouped predicate) (spaced following) :=
    (bind_ok hopen).trans <| (bind_ok (look_false (hquery (")" :: following)))).trans <|
      (bind_ok hread).trans (bind_ok hclose)
  have halone : groupedAlone? inner source = .ok (some (.grouped predicate)) (spaced following) :=
    optional_ok ((bind_ok (look_true hlook)).trans <| (bind_ok hgroup).trans
      (bind_ok (look_false (continuesExpression_false hfollows))))
  exact (bind_ok (accepts_fail hnot)).trans <| (bind_ok (accepts_fail hexists)).trans
    (bind_ok halone)

end

end EntityQuery.Grammar

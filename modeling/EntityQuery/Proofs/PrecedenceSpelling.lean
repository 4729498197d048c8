import EntityQuery.Grammar.Reading
import EntityQuery.Proofs.SpelledPredicates

/-!
# Spelled phrases are read back

The precedence of the operators decides how a text without parentheses is grouped: an expression or
a predicate in which no operand binds less tightly than its place asks is read back from its tokens
as it is. Nothing is lost on the way, so different trees are spelled differently.

A parenthesis opens a group of expressions or a group of predicates. Which of them it is shows only
behind it, so it is first tried as one of predicates. The induction therefore carries, beside what
is read, that a parenthesis that opens an expression is refused there (`Spelled.grouping`).

* `opens_expression`, `lacks_predicate`: what phrases begin with.
* `expression_spelled`, `predicate_spelled`: phrases are read back at every level that their
  outermost operators allow, whatever allowed token follows.
* `spelling_read`: whole texts.
* `ofText_spelling`, `spelling_injective`.
-/

namespace EntityQuery.Grammar

open EntityQuery.Phrase
open EntityQuery.Text
open Reader

/-! ## What phrases begin with -/

/-- Literals, parameters, paths, calls and cases begin with no sign and with no parenthesis. -/
theorem opens_leaf {expression : Expression} (h : expression.Normal)
    (hrank : 4 ≤ expression.rank) (hgroup : ∀ inner, expression ≠ .grouped inner)
    (following : List String) : Opens ("(" :: closedSigns) (expression.tokens ++ following) := by
  cases expression with
  | literal literal =>
    rw [Expression.Normal] at h
    rw [Expression.tokens]
    exact (literal_opens h following).mono (by decide)
  | parameter parameter =>
    rw [Expression.tokens]
    exact parameter_opens parameter following
  | path path =>
    rw [Expression.Normal] at h
    obtain ⟨first, parts, -, hword, -⟩ := leadsWord_path h
    rw [Expression.tokens]
    exact (hword.opens following).mono (by decide)
  | call name generic distinct star arguments =>
    rw [Expression.Normal] at h
    have hword := leadsWord_function h.2.1
    cases star with
    | true =>
      rw [Expression.tokens]
      exact (hword.opens _).mono (by decide)
    | false =>
      rw [Expression.tokens]
      exact (hword.opens _).mono (by decide)
  | simpleCase operand whens otherwise =>
    rw [Expression.tokens]
    exact (follows_cons (by decide) _ : Follows ["case"] _).opens (by decide) (by decide)
      (by decide)
  | searchedCase whens otherwise =>
    rw [Expression.tokens]
    exact (follows_cons (by decide) _ : Follows ["case"] _).opens (by decide) (by decide)
      (by decide)
  | grouped inner => exact absurd rfl (hgroup inner)
  | arithmetic operator operands =>
    have hlow : operator.rank < 4 := by cases operator <;> decide
    exact absurd hrank (Nat.not_le_of_lt hlow)
  | concatenation operands => exact absurd hrank (Nat.not_le_of_lt (by decide : 0 < 4))
  | unary sign operand => exact absurd hrank (Nat.not_le_of_lt (by decide : 3 < 4))
  | indexed | treated | mapFunction | subquery => simp [Expression.Normal] at h

theorem opens_grouped (tokens : List String) : Opens closedSigns ("(" :: tokens) :=
  (follows_cons (by decide) tokens : Follows ["("] _).opens (by decide) (by decide) (by decide)

theorem opens_unary (sign : Sign) (tokens : List String) :
    Opens ["(", ")", "*"] (sign.symbol :: tokens) := by
  have hsign : sign.symbol ∈ ["+", "-"] := by cases sign <;> decide
  exact (follows_cons hsign tokens).opens (by decide) (by decide) (by decide)

/-- What an expression begins with is decided by its first operand. -/
theorem opens_expression : ∀ expression : Expression, expression.Normal →
    ∀ following, Opens [")", "*"] (expression.tokens ++ following)
  | .arithmetic operator [left, right], h, following => by
    rw [Expression.Normal] at h
    rw [tokens_arithmetic, List.append_assoc]
    exact opens_expression left h.1 _
  | .concatenation [left, right], h, following => by
    rw [Expression.Normal] at h
    rw [tokens_concatenation, List.append_assoc]
    exact opens_expression left h.1 _
  | .unary sign operand, h, following => by
    rw [Expression.tokens]
    exact (opens_unary sign _).mono (by decide)
  | .grouped inner, h, following => by
    rw [Expression.tokens]
    exact (opens_grouped _).mono (by decide)
  | .literal _, h, following | .parameter _, h, following | .path _, h, following
  | .call _ _ _ _ _, h, following | .simpleCase _ _ _, h, following
  | .searchedCase _ _, h, following =>
    (opens_leaf h (Nat.le_refl 4) nofun following).mono (by decide)
  | .arithmetic _ [], h, _ | .arithmetic _ [_], h, _ | .arithmetic _ (_ :: _ :: _ :: _), h, _
  | .concatenation [], h, _ | .concatenation [_], h, _ | .concatenation (_ :: _ :: _ :: _), h, _
  | .indexed _ _ _, h, _ | .treated _ _ _, h, _ | .mapFunction _ _, h, _ | .subquery _, h, _ => by
    simp [Expression.Normal] at h

theorem tokens_ne_nil {expression : Expression} (h : expression.Normal) :
    expression.tokens ≠ [] := by
  intro hnil
  have hopens := opens_expression expression h ["*"]
  have hbars := hopens.bars "*" (by decide)
  rw [hnil] at hbars
  cases hbars

/-- The expression that a predicate begins with, and the tokens behind it. -/
def led? : Predicate → Option (Expression × List String)
  | .comparison operator left right => some (left, operator.symbol :: right.tokens)
  | .between expression lower upper negated =>
    some (expression, negation negated ++ "between" :: lower.tokens ++ "and" :: upper.tokens)
  | .like expression pattern escape negated =>
    some (expression, negation negated ++ "like" :: pattern.tokens ++ escapeTokens escape)
  | .inList expression items negated =>
    some (expression, negation negated ++ "in" :: "(" :: argumentTokens items ++ [")"])
  | .isNull expression negated => some (expression, "is" :: negation negated ++ ["null"])
  | .isEmpty expression negated => some (expression, "is" :: negation negated ++ ["empty"])
  | .memberOf element collection negated =>
    some (element, negation negated ++ "member" :: "of" :: collection.tokens)
  | _ => none

section

variable {predicate : Predicate} {expression : Expression} {rest : List String}

theorem led?_tokens (h : led? predicate = some (expression, rest)) :
    predicate.tokens = expression.tokens ++ rest := by
  cases predicate with
  | and | or | not | grouped | existence | inSubquery => cases h
  | comparison | between | like | inList | isNull | isEmpty | memberOf =>
    cases h
    simp [Predicate.tokens]

theorem led?_normal (hnormal : predicate.Normal) (h : led? predicate = some (expression, rest)) :
    expression.Normal := by
  cases predicate with
  | and | or | not | grouped | existence | inSubquery => cases h
  | comparison | between | like | inList | memberOf =>
    cases h
    rw [Predicate.Normal] at hnormal
    exact hnormal.1
  | isNull | isEmpty =>
    cases h
    rw [Predicate.Normal] at hnormal
    exact hnormal

/-- Behind the first expression of a predicate there is an operator. -/
theorem led?_follows (h : led? predicate = some (expression, rest)) (following : List String) :
    Follows closers (rest ++ following) := by
  have hnegation : ∀ negated, ∀ word ∈ closers, ∀ tokens : List String,
      Follows closers (negation negated ++ word :: tokens) :=
    fun negated word hword tokens => follows_negation (by decide) hword negated tokens
  cases predicate with
  | and | or | not | grouped | existence | inSubquery => cases h
  | comparison operator left right =>
    cases h
    have hsymbol : operator.symbol ∈ closers := by cases operator <;> decide
    exact follows_cons hsymbol _
  | isNull | isEmpty =>
    cases h
    exact follows_cons (by decide) _
  | between | like | inList | memberOf =>
    cases h
    simp only [List.append_assoc, List.cons_append]
    exact hnegation _ _ (by decide) _

end

/-- Keywords that no predicate begins with, tests for existence excepted. -/
def strangers : List String := ["select", "from", "exists"]

theorem lacks_first {first : String} (hfirst : first ∈ ["not", "("]) {keyword : String}
    (hkeyword : keyword ∈ strangers) (rest : List String) : Lacks keyword (first :: rest) := by
  have hall : ∀ keyword ∈ strangers, keyword ∈ reservedWords
      ∧ ["not", "("].all (lacking keyword) = true := by
    decide
  obtain ⟨hreserved, hlacking⟩ := hall keyword hkeyword
  exact (follows_cons hfirst rest).lacks hreserved hlacking

/-- What a predicate without connectives begins with. -/
theorem lacks_operand {predicate : Predicate} (h : predicate.Normal) (hrank : 2 ≤ predicate.rank)
    {keyword : String} (hkeyword : keyword ∈ strangers)
    (hexistence : predicate.IsExistence → keyword ≠ "exists") (following : List String) :
    Lacks keyword (predicate.tokens ++ following) := by
  cases hled : led? predicate with
  | some led =>
    obtain ⟨expression, rest⟩ := led
    have hform : strangers ⊆ formKeywords := by decide
    rw [led?_tokens hled, List.append_assoc]
    exact (opens_expression expression (led?_normal h hled) _).lacks keyword (hform hkeyword)
  | none =>
    cases predicate with
    | comparison | between | like | inList | isNull | isEmpty | memberOf => cases hled
    | and left right => exact absurd hrank (Nat.not_le_of_lt (by decide : 1 < 2))
    | or left right => exact absurd hrank (Nat.not_le_of_lt (by decide : 0 < 2))
    | not inner =>
      rw [Predicate.tokens]
      exact lacks_first (by decide) hkeyword _
    | grouped inner =>
      rw [Predicate.tokens]
      exact lacks_first (by decide) hkeyword _
    | existence expression negated =>
      rw [Predicate.tokens]
      cases negated with
      | true => exact lacks_first (by decide) hkeyword _
      | false =>
        have hall : ∀ keyword ∈ strangers, keyword ≠ "exists" → keyword ∈ reservedWords
            ∧ ["exists"].all (lacking keyword) = true := by
          decide
        obtain ⟨hreserved, hlacking⟩ := hall keyword hkeyword (hexistence rfl)
        exact (follows_cons (by decide) _ : Follows ["exists"] _).lacks hreserved hlacking
    | inSubquery => simp [Predicate.Normal] at h

/-- Keywords that no predicate begins with. -/
theorem strangers_query {keyword : String} (hkeyword : keyword ∈ ["select", "from"]) :
    keyword ∈ strangers ∧ keyword ≠ "exists" := by
  have hall : ∀ keyword ∈ ["select", "from"], keyword ∈ strangers ∧ keyword ≠ "exists" := by
    decide
  exact hall keyword hkeyword

/-- What a predicate begins with is decided by its first operand, and is not a query. -/
theorem lacks_predicate {keyword : String} (hkeyword : keyword ∈ ["select", "from"]) :
    ∀ predicate : Predicate, predicate.Normal →
      ∀ following, Lacks keyword (predicate.tokens ++ following)
  | .and left _, h, following => by
    rw [Predicate.Normal] at h
    rw [Predicate.tokens, List.append_assoc]
    exact lacks_predicate hkeyword left h.1 _
  | .or left _, h, following => by
    rw [Predicate.Normal] at h
    rw [Predicate.tokens, List.append_assoc]
    exact lacks_predicate hkeyword left h.1 _
  | .not _, h, following | .grouped _, h, following | .comparison _ _ _, h, following
  | .between _ _ _ _, h, following | .like _ _ _ _, h, following | .inList _ _ _, h, following
  | .inSubquery _ _ _, h, following | .isNull _ _, h, following | .isEmpty _ _, h, following
  | .memberOf _ _ _, h, following | .existence _ _, h, following =>
    lacks_operand h (Nat.le_refl 2) (strangers_query hkeyword).1
      (fun _ => (strangers_query hkeyword).2) following

theorem beginsQuery_predicate {predicate : Predicate} (h : predicate.Normal)
    (following : List String) : beginsQuery (spaced (predicate.tokens ++ following)) = false := by
  have hselect := lacks_predicate (by decide : "select" ∈ ["select", "from"]) predicate h following
  have hfrom := lacks_predicate (by decide : "from" ∈ ["select", "from"]) predicate h following
  unfold beginsQuery
  rw [beginsWithWord_lacking (shows_spaced _) hselect,
    beginsWithWord_lacking (shows_spaced _) hfrom]
  rfl

/-! ## Reading back -/

/-- The expression is read at every level that its outermost operator allows, and its leading
parenthesis, if it has one, is not taken for one of a predicate. -/
structure Spelled (inner : Inner) (expression : Expression) : Prop where
  reads : ReadsRanked inner expression
  grouping : Grouping inner expression

/-- What a deeper grammar reads through itself. -/
theorem Spelled.inner {depth : Nat} {expression : Expression}
    (h : Spelled (Inner.ofDepth depth) expression) :
    Reads (Inner.ofDepth (depth + 1)).expression expression.tokens expression closers :=
  h.reads.operand

/-- An expression without operators and groups is read, and begins with no parenthesis. -/
theorem spelled_leaf {inner : Inner} {expression : Expression} (hnormal : expression.Normal)
    (hrank : 4 ≤ expression.rank) (hgroup : ∀ inner, expression ≠ .grouped inner)
    (h : Reads (primary inner) expression.tokens expression (followers 3)) :
    Spelled inner expression where
  reads :=
    readsAt_primary
      (fun following => (opens_leaf hnormal hrank hgroup following).mono (by decide)) h
  grouping :=
    grouping_of_bars fun following =>
      (opens_leaf hnormal hrank hgroup following).bars "(" (by decide)

/-- The leading parenthesis of an operator's expression is that of its first operand. -/
theorem grouping_first {inner : Inner} {expression whole : Expression} {rest : List String}
    (htokens : whole.tokens = expression.tokens ++ rest) (h : Grouping inner expression) :
    Grouping inner whole := by
  intro following source hshows
  rw [htokens, List.append_assoc] at hshows
  exact h _ source hshows

/-- A predicate that begins with an expression is read. -/
theorem ranked_led {inner : Inner} {predicate : Predicate} {expression : Expression}
    {rest : List String} (hled : led? predicate = some (expression, rest))
    (hopens : ∀ following, Opens [")", "*"] (expression.tokens ++ following))
    (h : Spelled inner expression) (htail : TailReads inner expression rest predicate) :
    PredicateRanked inner predicate := by
  apply Ladder.ranked_of_top
  intro following source hshows hfollows
  rw [led?_tokens hled, List.append_assoc] at hshows
  have hbegins := hopens (rest ++ following)
  have hnot := keyword_lacking hshows (hbegins.lacks "not" (by decide))
  have hexists := keyword_lacking hshows (hbegins.lacks "exists" (by decide))
  have hgroup := h.grouping _ source hshows
  have hexpression := h.reads.operand _ source hshows (led?_follows hled following)
  have hrest : expressionPredicate inner source = .ok predicate (spaced following) :=
    (bind_ok hexpression).trans (htail following hfollows)
  exact (bind_ok (accepts_fail hnot)).trans <| (bind_ok (accepts_fail hexists)).trans <|
    (bind_ok hgroup).trans hrest

theorem optionalReads_of_spelled {depth : Nat} {optional : Option Expression}
    (h : ∀ found ∈ optional, Spelled (Inner.ofDepth depth) found) :
    OptionalReads (Inner.ofDepth (depth + 1)) optional := by
  cases optional with
  | none => trivial
  | some expression => exact (h expression rfl).inner

theorem length_argument {items : List Expression} {item : Expression} (h : item ∈ items) :
    item.tokens.length ≤ (argumentTokens items).length := by
  have hfurther : ∀ items : List Expression, item ∈ items →
      item.tokens.length ≤ (furtherTokens items).length := by
    intro items
    induction items with
    | nil => intro hnil; cases hnil
    | cons first rest ih =>
      intro hmem
      rw [furtherTokens]
      simp only [List.length_append, List.length_cons]
      rcases List.mem_cons.mp hmem with rfl | hrest
      · omega
      · have hlength := ih hrest
        omega
  cases items with
  | nil => cases h
  | cons first rest =>
    rw [argumentTokens]
    simp only [List.length_append]
    rcases List.mem_cons.mp h with rfl | hrest
    · omega
    · have hlength := hfurther rest hrest
      omega

theorem length_branch {β : Type} {tokens : β → List String} {branches : List β} {branch : β}
    (h : branch ∈ branches) : (tokens branch).length ≤ (branches.flatMap tokens).length := by
  obtain ⟨front, back, rfl⟩ := List.append_of_mem h
  simp only [List.flatMap_append, List.flatMap_cons, List.length_append]
  omega

theorem length_caseEnd {otherwise : Option Expression} {found : Expression}
    (h : found ∈ otherwise) : found.tokens.length < (caseEndTokens otherwise).length := by
  cases h
  simp only [caseEndTokens, List.length_append, List.length_cons]
  omega

theorem length_escape {escape : Option Expression} {found : Expression} (h : found ∈ escape) :
    found.tokens.length < (escapeTokens escape).length := by
  cases h
  simp only [escapeTokens, List.length_cons]
  omega

-- The induction is on the tree. Each nesting of parentheses, cases, arguments and negations uses up
-- one level of the grammar and at least one token, so the number of tokens bounds the depth.
mutual

/-- An expression in which no operand binds less tightly than its place asks is read back. -/
theorem expression_spelled : ∀ expression : Expression, expression.Normal →
    ∀ depth, expression.tokens.length ≤ depth → Spelled (Inner.ofDepth depth) expression
  | .literal literal, h, depth, _ => by
    have hread := h
    rw [Expression.Normal] at hread
    apply spelled_leaf h (Nat.le_refl 4) nofun
    rw [Expression.tokens]
    exact primary_literal hread
  | .parameter parameter, h, depth, _ => by
    have hread := h
    rw [Expression.Normal] at hread
    apply spelled_leaf h (Nat.le_refl 4) nofun
    rw [Expression.tokens]
    exact primary_parameter hread
  | .path path, h, depth, _ => by
    have hpath := h
    rw [Expression.Normal] at hpath
    apply spelled_leaf h (Nat.le_refl 4) nofun
    rw [Expression.tokens]
    exact primary_path hpath
  | .arithmetic operator [left, right], h, depth, hdepth => by
    rw [Expression.Normal] at h
    obtain ⟨hleft, hright, hleftRank, hrightRank⟩ := h
    have htokens := @tokens_arithmetic left right operator
    rw [htokens, List.length_append, List.length_cons] at hdepth
    have hleft := expression_spelled left hleft depth (by omega)
    have hright := expression_spelled right hright depth (by omega)
    exact ⟨ranked_join (.arithmetic operator) hleft.reads hright.reads hleftRank hrightRank,
      grouping_first htokens hleft.grouping⟩
  | .concatenation [left, right], h, depth, hdepth => by
    rw [Expression.Normal] at h
    obtain ⟨hleft, hright, hrightRank⟩ := h
    have htokens := @tokens_concatenation left right
    rw [htokens, List.length_append, List.length_cons] at hdepth
    have hleft := expression_spelled left hleft depth (by omega)
    have hright := expression_spelled right hright depth (by omega)
    exact ⟨ranked_join .concatenation hleft.reads hright.reads (Nat.zero_le _) hrightRank,
      grouping_first htokens hleft.grouping⟩
  | .unary sign operand, h, depth, hdepth => by
    rw [Expression.Normal] at h
    obtain ⟨hoperand, hrank⟩ := h
    rw [Expression.tokens, List.length_cons] at hdepth
    cases depth with
    | zero => omega
    | succ depth =>
      have hoperand := expression_spelled operand hoperand depth (by omega)
      refine ⟨readsAt_unary (hoperand.reads.reads 3 (Nat.le_refl 3) hrank), ?_⟩
      apply grouping_of_bars
      intro following
      rw [Expression.tokens]
      exact (opens_unary sign _).bars "(" (by decide)
  | .grouped inner, h, depth, hdepth => by
    rw [normal_grouped] at h
    simp only [Expression.tokens, List.length_append, List.length_cons] at hdepth
    have hopens := opens_expression inner h
    cases depth with
    | zero => omega
    | succ depth =>
      have hinner := expression_spelled inner h depth (by omega)
      refine ⟨readsAt_primary ?_ ?_, grouping_grouped hopens fun following => ?_⟩
      · intro following
        rw [Expression.tokens]
        exact opens_grouped _
      · rw [Expression.tokens]
        exact primary_grouped hopens hinner.inner
      -- What is refused as a predicate is the text behind the parenthesis, whose own parenthesis
      -- is again refused there.
      · exact predicate_refused hopens hinner.grouping hinner.reads (shows_spaced _)
  | .call name generic distinct true arguments, h, depth, _ => by
    have hcall := h
    rw [Expression.Normal] at hcall
    obtain ⟨rfl, hname, hstar, hdistinct, -⟩ := hcall
    have hnone := hstar rfl
    subst hnone
    rw [hdistinct rfl] at h ⊢
    apply spelled_leaf h (Nat.le_refl 4) nofun
    rw [Expression.tokens]
    exact primary_call hname call_star
  | .call name generic distinct false [], h, depth, _ => by
    have hcall := h
    rw [Expression.Normal] at hcall
    obtain ⟨rfl, hname, -, hdistinct, -⟩ := hcall
    rw [hdistinct rfl] at h ⊢
    apply spelled_leaf h (Nat.le_refl 4) nofun
    have htokens : (Expression.call name false false false []).tokens = [name, "(", ")"] := by
      simp [Expression.tokens, argumentTokens]
    rw [htokens]
    exact primary_call hname call_empty
  | .call name generic distinct false (first :: rest), h, depth, hdepth => by
    have hcall := h
    rw [Expression.Normal] at hcall
    obtain ⟨rfl, hname, -, -, harguments⟩ := hcall
    simp only [Expression.tokens, List.length_append, List.length_cons] at hdepth
    cases depth with
    | zero => omega
    | succ depth =>
      have hspelled := expressions_spelled (first :: rest) harguments depth fun item hitem => by
        have hlength := length_argument hitem
        omega
      have hnormal := expressions_normal harguments
      apply spelled_leaf h (Nat.le_refl 4) nofun
      rw [Expression.tokens]
      exact primary_call hname (call_arguments (List.cons_ne_nil first rest)
        (fun item hitem => opens_expression item (hnormal item hitem))
        (fun item hitem => (hspelled item hitem).inner))
  | .simpleCase operand whens otherwise, h, depth, hdepth => by
    have hcase := h
    rw [Expression.Normal] at hcase
    obtain ⟨hoperand, hwhens, hbranches, hotherwise⟩ := hcase
    rw [tokens_simpleCase] at hdepth
    simp only [List.length_append, List.length_cons] at hdepth
    cases depth with
    | zero => omega
    | succ depth =>
      have hopens := opens_expression operand hoperand
      have hoperand := expression_spelled operand hoperand depth (by omega)
      have hbranches := simpleWhens_spelled whens hbranches depth fun branch hbranch => by
        have hlength := @length_branch _ SimpleWhen.tokens _ _ hbranch
        omega
      have hotherwise := optional_spelled otherwise hotherwise depth fun found hfound => by
        have hlength := length_caseEnd hfound
        omega
      apply spelled_leaf h (Nat.le_refl 4) nofun
      rw [tokens_simpleCase]
      exact primary_case (simpleCase_spelled hopens hoperand.inner hwhens hbranches
        (optionalReads_of_spelled hotherwise))
  | .searchedCase whens otherwise, h, depth, hdepth => by
    have hcase := h
    rw [Expression.Normal] at hcase
    obtain ⟨hwhens, hbranches, hotherwise⟩ := hcase
    rw [tokens_searchedCase] at hdepth
    simp only [List.length_append, List.length_cons] at hdepth
    cases depth with
    | zero => omega
    | succ depth =>
      have hbranches := searchedWhens_spelled whens hbranches depth fun branch hbranch => by
        have hlength := @length_branch _ SearchedWhen.tokens _ _ hbranch
        omega
      have hotherwise := optional_spelled otherwise hotherwise depth fun found hfound => by
        have hlength := length_caseEnd hfound
        omega
      apply spelled_leaf h (Nat.le_refl 4) nofun
      rw [tokens_searchedCase]
      exact primary_case (searchedCase_spelled hwhens hbranches
        (optionalReads_of_spelled hotherwise))
  | .arithmetic _ [], h, _, _ | .arithmetic _ [_], h, _, _
  | .arithmetic _ (_ :: _ :: _ :: _), h, _, _ | .concatenation [], h, _, _
  | .concatenation [_], h, _, _ | .concatenation (_ :: _ :: _ :: _), h, _, _
  | .indexed _ _ _, h, _, _ | .treated _ _ _, h, _, _ | .mapFunction _ _, h, _, _
  | .subquery _, h, _, _ => by
    simp [Expression.Normal] at h

theorem expressions_spelled : ∀ items : List Expression, expressionsNormal items →
    ∀ depth, (∀ item ∈ items, item.tokens.length ≤ depth) →
      ∀ item ∈ items, Spelled (Inner.ofDepth depth) item
  | [], _, _, _, _, hmem => by cases hmem
  | first :: rest, h, depth, hdepth, item, hmem => by
    rw [expressionsNormal] at h
    have hfirst := expression_spelled first h.1 depth (hdepth first (by simp))
    have hrest := expressions_spelled rest h.2 depth fun other hother =>
      hdepth other (List.mem_cons_of_mem first hother)
    rcases List.mem_cons.mp hmem with heq | hmem
    · rw [heq]
      exact hfirst
    · exact hrest item hmem

theorem optional_spelled : ∀ optional : Option Expression, optionalNormal optional →
    ∀ depth, (∀ found ∈ optional, found.tokens.length ≤ depth) →
      ∀ found ∈ optional, Spelled (Inner.ofDepth depth) found
  | none, _, _, _, _, hfound => by cases hfound
  | some expression, h, depth, hdepth, found, hfound => by
    rw [optionalNormal] at h
    have hspelled := expression_spelled expression h depth (hdepth expression rfl)
    cases hfound
    exact hspelled

theorem simpleWhen_reads : ∀ branch : SimpleWhen, branch.Normal →
    ∀ depth, branch.tokens.length ≤ depth → SimpleWhenReads (Inner.ofDepth (depth + 1)) branch
  | .mk value result, h, depth, hdepth => by
    rw [SimpleWhen.Normal] at h
    simp only [SimpleWhen.tokens, List.length_append, List.length_cons] at hdepth
    have hvalue := expression_spelled value h.1 depth (by omega)
    have hresult := expression_spelled result h.2 depth (by omega)
    exact ⟨hvalue.inner, hresult.inner⟩

theorem simpleWhens_spelled : ∀ whens : List SimpleWhen, simpleWhensNormal whens →
    ∀ depth, (∀ branch ∈ whens, branch.tokens.length ≤ depth) →
      ∀ branch ∈ whens, SimpleWhenReads (Inner.ofDepth (depth + 1)) branch
  | [], _, _, _, _, hmem => by cases hmem
  | first :: rest, h, depth, hdepth, branch, hmem => by
    rw [simpleWhensNormal] at h
    have hfirst := simpleWhen_reads first h.1 depth (hdepth first (by simp))
    have hrest := simpleWhens_spelled rest h.2 depth fun other hother =>
      hdepth other (List.mem_cons_of_mem first hother)
    rcases List.mem_cons.mp hmem with heq | hmem
    · rw [heq]
      exact hfirst
    · exact hrest branch hmem

theorem searchedWhen_reads : ∀ branch : SearchedWhen, branch.Normal →
    ∀ depth, branch.tokens.length ≤ depth → SearchedWhenReads (Inner.ofDepth (depth + 1)) branch
  | .mk condition result, h, depth, hdepth => by
    rw [SearchedWhen.Normal] at h
    simp only [SearchedWhen.tokens, List.length_append, List.length_cons] at hdepth
    have hcondition := predicate_spelled condition h.1 depth (by omega)
    have hresult := expression_spelled result h.2 depth (by omega)
    have hread : Reads (Inner.ofDepth (depth + 1)).predicate condition.tokens condition
        (predicateFollowers 0) :=
      hcondition.reads 0 (Nat.zero_le _) (Nat.zero_le _)
    exact ⟨Reads.mono hread (by decide), hresult.inner⟩

theorem searchedWhens_spelled : ∀ whens : List SearchedWhen, searchedWhensNormal whens →
    ∀ depth, (∀ branch ∈ whens, branch.tokens.length ≤ depth) →
      ∀ branch ∈ whens, SearchedWhenReads (Inner.ofDepth (depth + 1)) branch
  | [], _, _, _, _, hmem => by cases hmem
  | first :: rest, h, depth, hdepth, branch, hmem => by
    rw [searchedWhensNormal] at h
    have hfirst := searchedWhen_reads first h.1 depth (hdepth first (by simp))
    have hrest := searchedWhens_spelled rest h.2 depth fun other hother =>
      hdepth other (List.mem_cons_of_mem first hother)
    rcases List.mem_cons.mp hmem with heq | hmem
    · rw [heq]
      exact hfirst
    · exact hrest branch hmem

/-- A predicate in which no operand binds less tightly than its place asks is read back. -/
theorem predicate_spelled : ∀ predicate : Predicate, predicate.Normal →
    ∀ depth, predicate.tokens.length ≤ depth → PredicateRanked (Inner.ofDepth depth) predicate
  | .and left right, h, depth, hdepth => by
    rw [Predicate.Normal] at h
    obtain ⟨hleft, hright, hleftRank, hrightRank⟩ := h
    simp only [Predicate.tokens, List.length_append, List.length_cons] at hdepth
    have hleft := predicate_spelled left hleft depth (by omega)
    have hright := predicate_spelled right hright depth (by omega)
    exact ranked_and hleft hright hleftRank hrightRank
  | .or left right, h, depth, hdepth => by
    rw [Predicate.Normal] at h
    obtain ⟨hleft, hright, hrightRank⟩ := h
    simp only [Predicate.tokens, List.length_append, List.length_cons] at hdepth
    have hleft := predicate_spelled left hleft depth (by omega)
    have hright := predicate_spelled right hright depth (by omega)
    exact ranked_or hleft hright hrightRank
  | .not inner, h, depth, hdepth => by
    rw [Predicate.Normal] at h
    obtain ⟨hnormal, hrank, hexistence⟩ := h
    simp only [Predicate.tokens, List.length_cons] at hdepth
    cases depth with
    | zero => omega
    | succ depth =>
      have hinner := predicate_spelled inner hnormal depth (by omega)
      have hbegins := lacks_operand hnormal hrank (by decide : "exists" ∈ strangers)
        fun hexists => absurd hexists hexistence
      exact ranked_not hbegins (hinner.reads 2 (Nat.le_refl 2) hrank)
  | .grouped inner, h, depth, hdepth => by
    rw [normal_groupedPredicate] at h
    simp only [tokens_groupedPredicate, List.length_append, List.length_cons] at hdepth
    cases depth with
    | zero => omega
    | succ depth =>
      have hinner := predicate_spelled inner h depth (by omega)
      exact ranked_grouped (beginsQuery_predicate h)
        (hinner.reads 0 (Nat.zero_le _) (Nat.zero_le _))
  | .comparison operator left right, h, depth, hdepth => by
    rw [Predicate.Normal] at h
    obtain ⟨hleft, hright⟩ := h
    simp only [Predicate.tokens, List.length_append, List.length_cons] at hdepth
    have hopens := opens_expression left hleft
    have hne := tokens_ne_nil hright
    have hleft := expression_spelled left hleft depth (by omega)
    have hright := expression_spelled right hright depth (by omega)
    exact ranked_led rfl hopens hleft (comparison_spelled hright.reads hne)
  | .between expression lower upper negated, h, depth, hdepth => by
    rw [Predicate.Normal] at h
    obtain ⟨hexpression, hlower, hupper⟩ := h
    simp only [Predicate.tokens, List.length_append, List.length_cons] at hdepth
    have hopens := opens_expression expression hexpression
    have hexpression := expression_spelled expression hexpression depth (by omega)
    have hlower := expression_spelled lower hlower depth (by omega)
    have hupper := expression_spelled upper hupper depth (by omega)
    exact ranked_led rfl hopens hexpression (between_spelled hlower.reads hupper.reads)
  | .like expression pattern escape negated, h, depth, hdepth => by
    rw [Predicate.Normal] at h
    obtain ⟨hexpression, hpattern, hescape⟩ := h
    simp only [Predicate.tokens, List.length_append, List.length_cons] at hdepth
    have hopens := opens_expression expression hexpression
    have hexpression := expression_spelled expression hexpression depth (by omega)
    have hpattern := expression_spelled pattern hpattern depth (by omega)
    have hescape := optional_spelled escape hescape depth fun found hfound => by
      have hlength := length_escape hfound
      omega
    exact ranked_led rfl hopens hexpression
      (like_spelled hpattern.reads fun found hfound => (hescape found hfound).reads)
  | .inList expression items negated, h, depth, hdepth => by
    rw [Predicate.Normal] at h
    obtain ⟨hexpression, hitems, hnormal⟩ := h
    simp only [Predicate.tokens, List.length_append, List.length_cons] at hdepth
    have hopens := opens_expression expression hexpression
    have hexpression := expression_spelled expression hexpression depth (by omega)
    cases depth with
    | zero => omega
    | succ depth =>
      have hspelled := expressions_spelled items hnormal depth fun item hitem => by
        have hlength := length_argument hitem
        omega
      have hall := expressions_normal hnormal
      exact ranked_led rfl hopens hexpression (inList_spelled hitems
        (fun item hitem => opens_expression item (hall item hitem))
        (fun item hitem => (hspelled item hitem).inner))
  | .isNull expression negated, h, depth, hdepth => by
    rw [Predicate.Normal] at h
    simp only [Predicate.tokens, List.length_append, List.length_cons] at hdepth
    have hexpression := expression_spelled expression h depth (by omega)
    exact ranked_led rfl (opens_expression expression h) hexpression isNull_spelled
  | .isEmpty expression negated, h, depth, hdepth => by
    rw [Predicate.Normal] at h
    simp only [Predicate.tokens, List.length_append, List.length_cons] at hdepth
    have hexpression := expression_spelled expression h depth (by omega)
    exact ranked_led rfl (opens_expression expression h) hexpression isEmpty_spelled
  | .memberOf element collection negated, h, depth, hdepth => by
    rw [Predicate.Normal] at h
    obtain ⟨helement, hcollection⟩ := h
    simp only [Predicate.tokens, List.length_append, List.length_cons] at hdepth
    have hopens := opens_expression element helement
    have helement := expression_spelled element helement depth (by omega)
    have hcollection := expression_spelled collection hcollection depth (by omega)
    exact ranked_led rfl hopens helement (memberOf_spelled hcollection.reads)
  | .existence expression negated, h, depth, hdepth => by
    rw [Predicate.Normal] at h
    simp only [Predicate.tokens, List.length_append, List.length_cons] at hdepth
    have hexpression := expression_spelled expression h depth (by omega)
    exact ranked_existence hexpression.reads
  | .inSubquery _ _ _, h, _, _ => by simp [Predicate.Normal] at h

end

/-! ## Whole texts -/

theorem spaced_cons_spelling (first : String) (rest : List String) :
    spaced (first :: rest) = ' ' :: (spelling (first :: rest)).toList := by
  induction rest generalizing first with
  | nil => simp [spelling]
  | cons second rest ih =>
    rw [spaced_cons, ih second]
    simp [spelling]

/-- Tokens with single spaces between them show themselves. -/
theorem shows_spelling (tokens : List String) : Shows tokens (spelling tokens).toList := by
  cases tokens with
  | nil => rfl
  | cons first rest =>
    unfold Shows
    rw [spaced_cons_spelling, trimStart_space]

theorem length_le_spelling (tokens : List String) :
    tokens.length ≤ (spelling tokens).toList.length + 1 := by
  cases tokens with
  | nil => exact Nat.zero_le _
  | cons first rest =>
    have hlength := length_le_spaced (first :: rest)
    rw [spaced_cons_spelling] at hlength
    exact hlength

theorem expression_read {expression : Expression} (h : expression.Normal) :
    concatenation (forText (spelling expression.tokens).toList) (spelling expression.tokens).toList
      = .ok expression [] := by
  have hspelled := expression_spelled expression h _ (length_le_spelling expression.tokens)
  have hshows := shows_spelling expression.tokens
  rw [← List.append_nil expression.tokens] at hshows
  have hread := hspelled.reads.operand [] _ hshows (follows_nil closers)
  rw [List.append_nil] at hread
  exact hread

theorem predicate_read {predicate : Predicate} (h : predicate.Normal) :
    disjunction (forText (spelling predicate.tokens).toList) (spelling predicate.tokens).toList
      = .ok predicate [] := by
  have hspelled := predicate_spelled predicate h _ (length_le_spelling predicate.tokens)
  have hshows := shows_spelling predicate.tokens
  rw [← List.append_nil predicate.tokens] at hshows
  have hread : Reads (disjunction (forText (spelling predicate.tokens).toList)) predicate.tokens
      predicate (predicateFollowers 0) :=
    hspelled.reads 0 (Nat.zero_le _) (Nat.zero_le _)
  have hwhole := hread [] _ hshows (follows_nil _)
  rw [List.append_nil] at hwhole
  exact hwhole

theorem whole_ok {α : Type} {reader : Reader α} {source : List Char} {value : α}
    (h : reader source = .ok value []) : reader.whole source = .ok value := by
  unfold Reader.whole
  rw [h]
  rfl

/-- A text that spells an expression is accepted as that expression. -/
theorem ofText_spelling {expression : Expression} (h : expression.Normal) :
    Expression.ofText (spelling expression.tokens) = .ok expression :=
  whole_ok (expression_read h)

/-- Different expressions are spelled differently. -/
theorem spelling_injective {first second : Expression} (hfirst : first.Normal)
    (hsecond : second.Normal) (h : spelling first.tokens = spelling second.tokens) :
    first = second := by
  have hread := expression_read hfirst
  rw [h, expression_read hsecond] at hread
  cases hread
  rfl

/-- Expressions and predicates in which no operand binds less tightly than its place asks are the
readings of their own tokens, to the end of the text. -/
theorem spelling_read :
    (∀ expression : Expression, expression.Normal →
      concatenation (forText (spelling expression.tokens).toList)
        (spelling expression.tokens).toList = .ok expression [])
      ∧ ∀ predicate : Predicate, predicate.Normal →
        disjunction (forText (spelling predicate.tokens).toList)
          (spelling predicate.tokens).toList = .ok predicate [] :=
  ⟨fun _ => expression_read, fun _ => predicate_read⟩

/-- Groups of expressions in a product with a sign. -/
def groupedProduct : Expression :=
  .arithmetic .multiply
    [.grouped (.arithmetic .add [.grouped (.path ⟨["a", "b"]⟩), .parameter (.positional 1)]),
      .unary .minus (.literal ⟨.integer, "2"⟩)]

/-- A negated interval of a group of expressions, and a negated group of predicates. -/
def groupedOperands : Predicate :=
  .and
    (.between groupedProduct (.literal ⟨.character, "x"⟩)
      (.searchedCase [.mk (.isNull (.path ⟨["c"]⟩) false) (.literal ⟨.string, "yes"⟩)] none) true)
    (.not (.grouped (.or (.existence (.path ⟨["b"]⟩) false)
      (.inList (.path ⟨["c"]⟩) [.call "f" false true false [.path ⟨["c"]⟩]] false))))

theorem groupedOperands_normal : groupedProduct.Normal ∧ groupedOperands.Normal := by
  have hpair : IsPath ⟨["a", "b"]⟩ := ⟨"a", ["b"], rfl, by decide, by unfold IsWord; decide⟩
  have hb : IsPath ⟨["b"]⟩ := ⟨"b", [], rfl, by decide, by unfold IsWord; decide⟩
  have hc : IsPath ⟨["c"]⟩ := ⟨"c", [], rfl, by decide, by unfold IsWord; decide⟩
  have hcall : IsFunction "f" := ⟨by unfold IsWord; decide, by decide, by decide⟩
  have hone : Parameter.IsRead (.positional 1) := by unfold Parameter.IsRead; decide
  have htwo : Literal.IsRead ⟨.integer, "2"⟩ := ⟨"2".toList, [], rfl⟩
  have hletter : Literal.IsRead ⟨.character, "x"⟩ := ⟨"'x'".toList, [], rfl⟩
  have hyes : Literal.IsRead ⟨.string, "yes"⟩ := ⟨"'yes'".toList, [], rfl⟩
  have hproduct : groupedProduct.Normal := by
    simp [groupedProduct, Expression.Normal, Expression.rank, ArithmeticOperator.rank, hpair,
      hone, htwo]
  refine ⟨hproduct, ?_⟩
  simp [groupedOperands, Predicate.Normal, Predicate.rank, Predicate.IsExistence,
    Expression.Normal, searchedWhensNormal, SearchedWhen.Normal, expressionsNormal,
    optionalNormal, hproduct, hb, hc, hcall, hletter, hyes]

theorem spelling_read_groupedOperands :
    spelling groupedOperands.tokens
        = "( ( a.b ) + ?1 ) * - 2 not between 'x' and case when c is null then 'yes' end "
          ++ "and not ( exists b or c in ( f ( distinct c ) ) )"
      ∧ groupedProduct.Normal ∧ groupedOperands.Normal
      ∧ concatenation (forText (spelling groupedProduct.tokens).toList)
          (spelling groupedProduct.tokens).toList = .ok groupedProduct []
      ∧ disjunction (forText (spelling groupedOperands.tokens).toList)
          (spelling groupedOperands.tokens).toList = .ok groupedOperands [] := by
  have hspelling : spelling groupedOperands.tokens
      = "( ( a.b ) + ?1 ) * - 2 not between 'x' and case when c is null then 'yes' end "
        ++ "and not ( exists b or c in ( f ( distinct c ) ) )" := by
    decide +kernel
  obtain ⟨hproduct, hoperands⟩ := groupedOperands_normal
  exact ⟨hspelling, hproduct, hoperands, spelling_read.1 _ hproduct, spelling_read.2 _ hoperands⟩

end EntityQuery.Grammar

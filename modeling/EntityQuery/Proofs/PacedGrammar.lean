import EntityQuery.Proofs.GrammarLevels
import EntityQuery.Proofs.PacedReaders

/-!
# The grammar in step

The productions of the grammar keep step on related texts, each with the readers of its own depth
inside. A production enters the grammar again only once something has been read, so a layer keeps
step at a bound that is greater by one; and depths that exceed the length of the text read alike.

* `Inner.InStep`, `Inner.InStep.layer`, `Inner.inStep_ofDepth`: the layers of the grammar.
* `statement_inStep`, `concatenation_inStep`: statements and expressions.
* `Table.unfoldOver_inStep`, `production_inStep`, `Loop.round_inStep`: the levels and the loops.
-/

namespace EntityQuery.Grammar

open EntityQuery.Phrase EntityQuery.Text
open Reader

/-- The readers through which the grammar enters itself keep step, and read something. -/
structure Inner.InStep (T : List Char → List Char → Prop) (bound : Nat) (inner inner' : Inner) :
    Prop where
  predicate : Reader.InStep T bound inner.predicate inner'.predicate fun _ => true
  negatable : Reader.InStep T bound inner.negatable inner'.negatable fun _ => true
  expression : Reader.InStep T bound inner.expression inner'.expression fun _ => true
  signed : Reader.InStep T bound inner.signed inner'.signed fun _ => true
  query : Reader.InStep T bound inner.query inner'.query fun _ => true
  instantiation : Reader.InStep T bound inner.instantiation inner'.instantiation fun _ => true

theorem Inner.InStep.mono {T : List Char → List Char → Prop} {bound further : Nat}
    {inner inner' : Inner} (h : Inner.InStep T further inner inner') (hle : bound ≤ further) :
    Inner.InStep T bound inner inner' :=
  ⟨h.predicate.mono hle, h.negatable.mono hle, h.expression.mono hle, h.signed.mono hle,
    h.query.mono hle, h.instantiation.mono hle⟩

section

variable {T : List Char → List Char → Prop} (hT : Kindred T) {bound : Nat}
include hT

/-! ## Names and aliases -/

theorem clause?_paced {α : Type} {start : Start T bound} {moved : Bool} {word : String}
    {content content' : Reader α} (hword : IsKeyword word)
    (h : Paced start true content content' fun _ => true) :
    Paced start moved (clause? word content) (clause? word content') fun found =>
      moved || found.isSome := by
  apply paced_accepting (keyword_paced hT hword)
  · exact paced_returning h
  · exact paced_pure fun h => by simpa using h

theorem dottedPart_inStep : Reader.InStep T bound dottedPart dottedPart Option.isSome := by
  intro start
  apply paced_weaken (paced_optional (paced_bind (sign_paced hT (by decide)) fun _ =>
    wordThat_paced hT _))
  intro found h
  cases found with
  | none => cases h
  | some part => rfl

theorem dottedTail_paced {start : Start T bound} {moved : Bool} (first : String) :
    Paced start moved (dottedTail first) (dottedTail first) fun _ => moved := by
  apply paced_bind (paced_many (dottedPart_inStep hT))
  intro parts
  exact paced_pure fun h => by rw [h]; rfl

theorem dottedIdentifier_paced {start : Start T bound} {moved : Bool} :
    Paced start moved dottedIdentifier dottedIdentifier fun _ => true := by
  apply paced_bind (wordThat_paced hT _)
  intro first
  exact dottedTail_paced hT first

theorem dottedName_paced {start : Start T bound} {moved : Bool} :
    Paced start moved dottedName dottedName fun _ => true := by
  apply paced_bind (wordThat_paced hT _)
  intro first
  exact dottedTail_paced hT first

theorem optionalAlias_paced {start : Start T bound} {moved : Bool} :
    Paced start moved optionalAlias optionalAlias fun _ => moved := by
  apply paced_accepting (keyword_paced hT (by decide))
  · exact paced_returning (wordThat_paced hT _)
  · apply paced_weaken (paced_optional (wordThat_paced hT _))
    intro found h
    cases found with
    | none => exact h
    | some name => rfl

theorem root_paced {start : Start T bound} {moved : Bool} :
    Paced start moved root root fun _ => true := by
  apply paced_bind (dottedName_paced hT)
  intro entity
  apply paced_bind (optionalAlias_paced hT)
  intro alias?
  exact paced_pure fun _ => rfl

theorem remainder_paced {start : Start T bound} {moved : Bool} :
    Paced start moved remainder remainder fun _ => moved := by
  apply paced_weaken (paced_optional (paced_bind (sign_paced hT (by decide)) fun _ =>
    dottedName_paced hT))
  intro found h
  cases found with
  | none => exact h
  | some name => rfl

theorem parameter_paced {start : Start T bound} {moved : Bool} :
    Paced start moved parameter parameter fun found => moved || found.isSome := by
  apply paced_accepting (exactSign_paced hT (by decide))
  · exact paced_returning (wordThat_paced hT _)
  · apply paced_accepting (exactSign_paced hT (by decide))
    · exact paced_returning (position_paced hT)
    · exact paced_pure fun h => by simpa using h

/-! ## Primary expressions -/

theorem treatedPath_inStep : Reader.InStep T bound treatedPath treatedPath fun _ => true := by
  intro start
  apply paced_bind (sign_paced hT (by decide))
  intro _
  apply paced_bind (dottedIdentifier_paced hT)
  intro base
  apply paced_bind (keyword_paced hT (by decide))
  intro _
  apply paced_bind (dottedName_paced hT)
  intro entity
  apply paced_bind (sign_paced hT (by decide))
  intro _
  exact paced_returning (remainder_paced hT)

theorem mapArgument_inStep (function : MapFunction) :
    Reader.InStep T bound (mapArgument function) (mapArgument function) fun _ => true := by
  intro start
  apply paced_bind (sign_paced hT (by decide))
  intro _
  apply paced_bind (dottedIdentifier_paced hT)
  intro argument
  exact paced_returning (sign_paced hT (by decide))

section

variable {inner inner' : Inner} (h : Inner.InStep T bound inner inner')
include h

theorem arguments_inStep :
    Reader.InStep T bound (arguments inner) (arguments inner') fun _ => true :=
  InStep.separated (fun _ => sign_paced hT (by decide)) rfl h.expression

theorem parenthesized_inStep :
    Reader.InStep T bound (parenthesized inner) (parenthesized inner') fun _ => true := by
  intro start
  apply paced_looking (beginsQuery_respects hT)
  · apply paced_bind h.query.call
    intro query
    exact paced_returning (sign_paced hT (by decide))
  · apply paced_bind h.expression.call
    intro expression
    exact paced_returning (sign_paced hT (by decide))

theorem caseEnd_inStep :
    Reader.InStep T bound (caseEnd inner) (caseEnd inner') fun _ => true := by
  intro start
  apply paced_accepting (keyword_paced hT (by decide))
  · apply paced_bind h.expression.call
    intro otherwise
    exact paced_returning (keyword_paced hT (by decide))
  · exact paced_returning (keyword_paced hT (by decide))

theorem searchedWhen_inStep :
    Reader.InStep T bound (searchedWhen inner) (searchedWhen inner') Option.isSome := by
  intro start
  apply paced_accepting (keyword_paced hT (by decide))
  · apply paced_bind h.predicate.call
    intro condition
    apply paced_bind (keyword_paced hT (by decide))
    intro _
    exact paced_returning h.expression.call
  · exact paced_pure fun h => h

theorem simpleWhen_inStep :
    Reader.InStep T bound (simpleWhen inner) (simpleWhen inner') Option.isSome := by
  intro start
  apply paced_accepting (keyword_paced hT (by decide))
  · apply paced_bind h.expression.call
    intro value
    apply paced_bind (keyword_paced hT (by decide))
    intro _
    exact paced_returning h.expression.call
  · exact paced_pure fun h => h

theorem caseExpression_inStep :
    Reader.InStep T bound (caseExpression inner) (caseExpression inner') fun _ => true := by
  intro start
  apply paced_looking (beginsWithWord_respects hT (by decide))
  · apply paced_bind (paced_many (searchedWhen_inStep hT h))
    intro whens
    apply paced_bind (paced_weaken (caseEnd_inStep hT h).call fun _ _ => by simp)
    intro otherwise
    exact paced_pure fun _ => rfl
  · apply paced_bind h.expression.call
    intro operand
    apply paced_bind (paced_many (simpleWhen_inStep hT h))
    intro whens
    split
    · exact paced_fail
    · exact paced_returning (paced_weaken (caseEnd_inStep hT h).call fun _ _ => by simp)

theorem genericCall_inStep :
    Reader.InStep T bound (genericCall inner) (genericCall inner') fun _ => true := by
  intro start
  apply paced_bind (sign_paced hT (by decide))
  intro _
  apply paced_bind (blanks_paced hT)
  intro _
  apply paced_bind (literalToken_paced hT)
  intro name
  apply paced_accepting (sign_paced hT (by decide))
  · apply paced_bind (arguments_inStep hT h).call
    intro values
    exact paced_returning (sign_paced hT (by decide))
  · exact paced_returning (sign_paced hT (by decide))

theorem call_inStep (name : String) :
    Reader.InStep T bound (call inner name) (call inner' name) fun _ => true := by
  intro start
  apply paced_bind (sign_paced hT (by decide))
  intro _
  apply paced_accepting (sign_paced hT (by decide))
  · exact paced_returning (sign_paced hT (by decide))
  · apply paced_looking (beginsWithSign_respects hT (by decide))
    · exact paced_returning (sign_paced hT (by decide))
    · apply paced_bind (paced_accepts_behind (keyword_paced hT (by decide)))
      intro distinct
      apply paced_bind (arguments_inStep hT h).call
      intro values
      exact paced_returning (sign_paced hT (by decide))

theorem pathFrom_paced {start : Start T (bound + 1)} (first : String) :
    Paced start true (pathFrom inner first) (pathFrom inner' first) fun _ => true := by
  apply paced_bind (dottedTail_paced hT first)
  intro base
  apply paced_accepting (sign_paced hT (by decide))
  · apply paced_bind h.expression.enter
    intro index
    apply paced_bind (sign_paced hT (by decide))
    intro _
    exact paced_returning (remainder_paced hT)
  · exact paced_pure fun _ => rfl

theorem pathOrCall_inStep :
    Reader.InStep T (bound + 1) (pathOrCall inner) (pathOrCall inner') fun _ => true := by
  intro start
  apply paced_bind (wordThat_paced hT _)
  intro first
  apply paced_looking (beginsWithSign_respects hT (by decide))
  · split
    · exact (treatedPath_inStep hT).enter
    · exact (mapArgument_inStep hT .key).enter
    · exact (mapArgument_inStep hT .value).enter
    · exact (mapArgument_inStep hT .entry).enter
    · exact (genericCall_inStep hT h).enter
    · exact (call_inStep hT h first).enter
  · exact pathFrom_paced hT h first

theorem primary_inStep :
    Reader.InStep T (bound + 1) (primary inner) (primary inner') fun _ => true := by
  intro start
  apply paced_bind (blanks_paced hT)
  intro _
  apply paced_accepting (sign_paced hT (by decide))
  · exact (parenthesized_inStep hT h).enter
  · apply paced_bind (parameter_paced hT)
    intro parameter?
    cases parameter? with
    | some parameter => exact paced_pure fun _ => rfl
    | none =>
      apply paced_bind (paced_optional (literalToken_paced hT))
      intro literal?
      cases literal? with
      | some literal => exact paced_pure fun _ => rfl
      | none =>
        apply paced_accepting (exactKeyword_paced hT (by decide))
        · exact (caseExpression_inStep hT h).enter
        · exact (pathOrCall_inStep hT h).call

/-! ## Expressions -/

omit h in
theorem operator_paced {α : Type} {start : Start T bound} {moved : Bool} {first second : String × α}
    (hfirst : IsSign first.1) (hsecond : IsSign second.1) :
    Paced start moved (operator first second) (operator first second) fun found =>
      moved || found.isSome := by
  apply paced_accepting (sign_paced hT hfirst)
  · exact paced_pure fun _ => rfl
  · apply paced_accepting (sign_paced hT hsecond)
    · exact paced_pure fun _ => rfl
    · exact paced_pure fun h => by simpa using h

theorem signedOver_inStep {primary primary' : Reader Expression}
    (hprimary : Reader.InStep T (bound + 1) primary primary' fun _ => true) :
    Reader.InStep T (bound + 1) (signedOver inner primary) (signedOver inner' primary')
      fun _ => true := by
  intro start
  apply paced_bind (operator_paced hT (by decide) (by decide))
  intro sign?
  cases sign? with
  | some sign => exact paced_returning h.signed.enter
  | none => exact hprimary.call

theorem signed_inStep :
    Reader.InStep T (bound + 1) (signed inner) (signed inner') fun _ => true :=
  signedOver_inStep hT h (primary_inStep hT h)

section

variable {operator operator' : Reader (Option ArithmeticOperator)}
  {operand operand' : Reader Expression}
  (hoperator : Reader.InStep T bound operator operator' Option.isSome)
  (hoperand : Reader.InStep T bound operand operand' fun _ => true)
include hoperator hoperand

omit hT h in
theorem leftGroupedRound_inStep (left : Expression) :
    Reader.InStep T bound (leftGroupedRound operator operand left)
      (leftGroupedRound operator' operand' left) Option.isSome := by
  intro start
  apply paced_bind (hoperator start)
  intro operator?
  cases operator? with
  | some operator => exact paced_returning hoperand.call
  | none => exact paced_pure fun h => h

omit hT h in
theorem leftGrouped_inStep :
    Reader.InStep T bound (leftGrouped operator operand) (leftGrouped operator' operand')
      fun _ => true := by
  intro start
  apply paced_bind (hoperand start)
  intro first
  exact paced_chain first (leftGroupedRound_inStep hoperator hoperand)

end

theorem multiplicative_inStep :
    Reader.InStep T (bound + 1) (multiplicative inner) (multiplicative inner') fun _ => true :=
  leftGrouped_inStep (fun _ => operator_paced hT (by decide) (by decide))
    (signed_inStep hT h)

theorem additive_inStep :
    Reader.InStep T (bound + 1) (additive inner) (additive inner') fun _ => true :=
  leftGrouped_inStep (fun _ => operator_paced hT (by decide) (by decide))
    (multiplicative_inStep hT h)

section

variable {operand operand' : Reader Expression}
  (hoperand : Reader.InStep T bound operand operand' fun _ => true)
include hoperand

omit h in
theorem concatenationRound_inStep (left : Expression) :
    Reader.InStep T bound (concatenationRound operand left) (concatenationRound operand' left)
      Option.isSome := by
  intro start
  apply paced_accepting (sign_paced hT (by decide))
  · exact paced_returning hoperand.call
  · exact paced_pure fun h => h

omit h in
theorem concatenationOver_inStep :
    Reader.InStep T bound (concatenationOver operand) (concatenationOver operand')
      fun _ => true := by
  intro start
  apply paced_bind (hoperand start)
  intro first
  exact paced_chain first (concatenationRound_inStep hT hoperand)

end

theorem concatenation_inStep :
    Reader.InStep T (bound + 1) (concatenation inner) (concatenation inner') fun _ => true :=
  concatenationOver_inStep hT (additive_inStep hT h)

/-! ## Predicates -/

theorem groupedAlone?_paced {start : Start T (bound + 1)} :
    Paced start false (groupedAlone? inner) (groupedAlone? inner') Option.isSome := by
  have hgrouped : Paced start false (groupedPredicate inner) (groupedPredicate inner')
      fun _ => true := by
    apply paced_bind (sign_paced hT (by decide))
    intro _
    apply paced_looking (beginsQuery_respects hT)
    · exact paced_fail
    · apply paced_bind h.predicate.enter
      intro predicate
      exact paced_returning (sign_paced hT (by decide))
  have halone : Paced start false
      (do if ← look (beginsWithSign "(") then
            let predicate ← groupedPredicate inner
            if ← look continuesExpression then fail else return predicate
          else fail)
      (do if ← look (beginsWithSign "(") then
            let predicate ← groupedPredicate inner'
            if ← look continuesExpression then fail else return predicate
          else fail) fun _ => true := by
    apply paced_looking (beginsWithSign_respects hT (by decide))
    · apply paced_bind hgrouped
      intro predicate
      apply paced_looking (continuesExpression_respects hT)
      · exact paced_fail
      · exact paced_pure fun _ => rfl
    · exact paced_fail
  apply paced_weaken (paced_optional halone)
  intro found h
  cases found with
  | none => cases h
  | some predicate => rfl

section

variable {start : Start T (bound + 1)} (tested : Expression) (negated : Bool)

theorem inOperand_paced : Paced start true (inOperand inner tested negated)
    (inOperand inner' tested negated) fun _ => true := by
  apply paced_accepting (sign_paced hT (by decide))
  · apply paced_looking (beginsQuery_respects hT)
    · apply paced_bind h.query.enter
      intro query
      exact paced_returning (sign_paced hT (by decide))
    · apply paced_bind (arguments_inStep hT h).enter
      intro items
      exact paced_returning (sign_paced hT (by decide))
  · exact paced_returning (concatenation_inStep hT h).call

theorem betweenOperands_paced : Paced start true (betweenOperands inner tested negated)
    (betweenOperands inner' tested negated) fun _ => true := by
  apply paced_bind (concatenation_inStep hT h).call
  intro lower
  apply paced_bind (keyword_paced hT (by decide))
  intro _
  exact paced_returning (concatenation_inStep hT h).call

theorem likeOperands_paced : Paced start true (likeOperands inner tested negated)
    (likeOperands inner' tested negated) fun _ => true := by
  apply paced_bind (concatenation_inStep hT h).call
  intro pattern
  apply paced_accepting (keyword_paced hT (by decide))
  · exact paced_returning (concatenation_inStep hT h).call
  · exact paced_pure fun _ => rfl

theorem memberOperand_paced : Paced start true (memberOperand inner tested negated)
    (memberOperand inner' tested negated) fun _ => true := by
  apply paced_bind (paced_accepts_behind (keyword_paced hT (by decide)))
  intro _
  exact paced_returning (concatenation_inStep hT h).call

omit h in
theorem isOperand_paced :
    Paced start true (isOperand tested) (isOperand tested) fun _ => true := by
  apply paced_bind (paced_accepts_behind (keyword_paced hT (by decide)))
  intro negated
  apply paced_accepting (keyword_paced hT (by decide))
  · exact paced_pure fun _ => rfl
  · exact paced_returning (keyword_paced hT (by decide))

/-- A negation without an operator is set back to before it, where the operator begins. -/
theorem operatorOperands_inStep : Reader.InStep T (bound + 1) (operatorOperands inner tested)
    (operatorOperands inner' tested) fun _ => true := by
  apply inStep_of_replies
  intro start
  unfold operatorOperands
  apply Paced.reply
  apply paced_bind (paced_accepts (keyword_paced hT (by decide)))
  intro negated
  apply paced_accepting (keyword_paced hT (by decide))
  · exact betweenOperands_paced hT h tested negated
  · apply paced_accepting (keyword_paced hT (by decide))
    · exact likeOperands_paced hT h tested negated
    · apply paced_accepting (keyword_paced hT (by decide))
      · exact inOperand_paced hT h tested negated
      · apply paced_accepting (keyword_paced hT (by decide))
        · exact memberOperand_paced hT h tested negated
        · split
          · exact paced_failAt
          · apply paced_bind (comparisonOperator_paced hT)
            intro operator
            exact paced_returning (concatenation_inStep hT h).call

end

theorem expressionPredicateOver_inStep {expression expression' : Reader Expression}
    (hexpression : Reader.InStep T (bound + 1) expression expression' fun _ => true) :
    Reader.InStep T (bound + 1) (expressionPredicateOver inner expression)
      (expressionPredicateOver inner' expression') fun _ => true := by
  intro start
  apply paced_bind (hexpression start)
  intro tested
  apply paced_accepting (keyword_paced hT (by decide))
  · exact isOperand_paced hT tested
  · exact (operatorOperands_inStep hT h tested).call

theorem expressionPredicate_inStep : Reader.InStep T (bound + 1) (expressionPredicate inner)
    (expressionPredicate inner') fun _ => true :=
  expressionPredicateOver_inStep hT h (concatenation_inStep hT h)

theorem primaryPredicateOver_inStep {predicate predicate' : Reader Predicate}
    (hpredicate : Reader.InStep T (bound + 1) predicate predicate' fun _ => true) :
    Reader.InStep T (bound + 1) (primaryPredicateOver inner predicate)
      (primaryPredicateOver inner' predicate') fun _ => true := by
  intro start
  apply paced_accepting (keyword_paced hT (by decide))
  · exact paced_returning (concatenation_inStep hT h).call
  · apply paced_bind (groupedAlone?_paced hT h)
    intro found
    cases found with
    | some predicate => exact paced_pure fun _ => rfl
    | none => exact hpredicate.call

theorem primaryPredicate_inStep : Reader.InStep T (bound + 1) (primaryPredicate inner)
    (primaryPredicate inner') fun _ => true :=
  primaryPredicateOver_inStep hT h (expressionPredicate_inStep hT h)

theorem negatableOver_inStep {predicate predicate' : Reader Predicate}
    (hpredicate : Reader.InStep T (bound + 1) predicate predicate' fun _ => true) :
    Reader.InStep T (bound + 1) (negatableOver inner predicate) (negatableOver inner' predicate')
      fun _ => true := by
  apply inStep_of_replies
  intro start
  unfold negatableOver
  apply Paced.reply
  apply paced_accepting (keyword_paced hT (by decide))
  · apply paced_accepting (keyword_paced hT (by decide))
    · exact paced_returning (concatenation_inStep hT h).call
    · apply paced_bind (paced_optional h.negatable.enter)
      intro found
      cases found with
      | some predicate => exact paced_pure fun _ => rfl
      | none => exact paced_failAt
  · exact hpredicate.call

theorem negatable_inStep :
    Reader.InStep T (bound + 1) (negatable inner) (negatable inner') fun _ => true :=
  negatableOver_inStep hT h (primaryPredicate_inStep hT h)

section

variable {word : String} (hword : IsKeyword word) (join : Predicate → Predicate → Predicate)
  {operand operand' : Reader Predicate}
  (hoperand : Reader.InStep T bound operand operand' fun _ => true)
include hword hoperand

omit h in
theorem joinedRound_inStep (left : Predicate) :
    Reader.InStep T bound (joinedRound word join operand left)
      (joinedRound word join operand' left) Option.isSome := by
  intro start
  apply paced_accepting (keyword_paced hT hword)
  · exact paced_returning hoperand.call
  · exact paced_pure fun h => h

omit h in
theorem joined_inStep :
    Reader.InStep T bound (joined word join operand) (joined word join operand')
      fun _ => true := by
  intro start
  apply paced_bind (hoperand start)
  intro first
  exact paced_chain first (joinedRound_inStep hT hword join hoperand)

end

theorem conjunction_inStep :
    Reader.InStep T (bound + 1) (conjunction inner) (conjunction inner') fun _ => true :=
  joined_inStep hT (by decide) .and (negatable_inStep hT h)

theorem disjunction_inStep :
    Reader.InStep T (bound + 1) (disjunction inner) (disjunction inner') fun _ => true :=
  joined_inStep hT (by decide) .or (conjunction_inStep hT h)

/-! ## Selection -/

omit h in
theorem opening_paced {start : Start T bound} {moved : Bool} {word : String}
    (hword : IsKeyword word) :
    Paced start moved (do keyword word; sign "(") (do keyword word; sign "(") fun _ => true := by
  apply paced_bind (keyword_paced hT hword)
  intro _
  exact sign_paced hT (by decide)

theorem selectExpression_inStep :
    Reader.InStep T (bound + 1) (selectExpression inner) (selectExpression inner')
      fun _ => true := by
  intro start
  apply paced_accepting (keyword_paced hT (by decide))
  · exact h.instantiation.enter
  · apply paced_accepting (opening_paced hT (by decide))
    · apply paced_bind (wordThat_paced hT _)
      intro name
      exact paced_returning (sign_paced hT (by decide))
    · exact paced_returning (concatenation_inStep hT h start)

theorem selectItem_inStep :
    Reader.InStep T (bound + 1) (selectItem inner) (selectItem inner') fun _ => true := by
  intro start
  apply paced_bind (selectExpression_inStep hT h start)
  intro expression
  apply paced_bind (optionalAlias_paced hT)
  intro alias?
  exact paced_pure fun _ => rfl

theorem selectItems_inStep :
    Reader.InStep T (bound + 1) (selectItems inner) (selectItems inner') fun _ => true :=
  InStep.separated (fun _ => sign_paced hT (by decide)) rfl (selectItem_inStep hT h)

theorem selectClause_inStep :
    Reader.InStep T (bound + 1) (selectClause inner) (selectClause inner') fun _ => true := by
  intro start
  apply paced_bind (paced_accepts (keyword_paced hT (by decide)))
  intro distinct
  exact paced_returning (paced_weaken (selectItems_inStep hT h).call fun _ _ => by simp)

theorem instantiation_inStep :
    Reader.InStep T (bound + 1) (instantiation inner) (instantiation inner') fun _ => true := by
  intro start
  apply paced_bind (dottedName_paced hT)
  intro name
  apply paced_bind (sign_paced hT (by decide))
  intro _
  apply paced_bind (selectItems_inStep hT h).call
  intro items
  exact paced_returning (sign_paced hT (by decide))

/-! ## Spaces -/

omit h in
theorem collectionJoin_inStep :
    Reader.InStep T bound collectionJoin collectionJoin fun _ => true := by
  intro start
  apply paced_bind (sign_paced hT (by decide))
  intro _
  apply paced_bind (dottedIdentifier_paced hT)
  intro path
  apply paced_bind (sign_paced hT (by decide))
  intro _
  exact paced_returning (optionalAlias_paced hT)

omit h in
theorem joinType?_paced {start : Start T bound} :
    Paced start false joinType? joinType? Option.isSome := by
  have houter : ∀ type : JoinType, Paced start true
      (do let _ ← accepts (keyword "outer"); return some type)
      (do let _ ← accepts (keyword "outer"); return some type) Option.isSome :=
    fun type => paced_returning (paced_accepts_behind (keyword_paced hT (by decide)))
  apply paced_accepting (keyword_paced hT (by decide))
  · exact paced_pure fun _ => rfl
  · apply paced_accepting (keyword_paced hT (by decide)) (houter .left)
    apply paced_accepting (keyword_paced hT (by decide)) (houter .right)
    apply paced_accepting (keyword_paced hT (by decide)) (houter .full)
    exact paced_pure fun h => h

omit h in
/-- Without a join nothing is read, and a type alone is refused where it begins. -/
theorem joinOpening_inStep : Reader.InStep T bound joinOpening joinOpening Option.isSome := by
  apply inStep_of_replies
  intro start
  unfold joinOpening
  apply Paced.reply
  apply paced_bind (joinType?_paced hT)
  intro type?
  apply paced_accepting (keyword_paced hT (by decide))
  · exact paced_pure fun _ => rfl
  · split
    · exact paced_failAt
    · exact paced_backTo rfl

omit h in
theorem joinTarget_inStep : Reader.InStep T bound joinTarget joinTarget fun _ => true := by
  intro start
  apply paced_accepting (opening_paced hT (by decide))
  · apply paced_bind (dottedIdentifier_paced hT)
    intro path
    apply paced_bind (keyword_paced hT (by decide))
    intro _
    apply paced_bind (dottedName_paced hT)
    intro entity
    exact paced_returning (sign_paced hT (by decide))
  · exact paced_returning (dottedName_paced hT)

theorem join?_inStep : Reader.InStep T (bound + 1) (join? inner) (join? inner') Option.isSome := by
  intro start
  apply paced_accepting (keyword_paced hT (by decide))
  · apply paced_bind (keyword_paced hT (by decide))
    intro _
    exact paced_returning (root_paced hT)
  · apply paced_bind (joinOpening_inStep hT start)
    intro type?
    cases type? with
    | none => exact paced_pure fun h => h
    | some type =>
      apply paced_bind (paced_accepts_behind (keyword_paced hT (by decide)))
      intro fetch
      apply paced_bind (joinTarget_inStep hT).call
      intro target
      apply paced_bind (optionalAlias_paced hT)
      intro alias?
      have hpredicate : Paced start true (joinPredicate inner) (joinPredicate inner')
          fun _ => true := by
        apply paced_accepting (keyword_paced hT (by decide))
        · exact paced_returning (disjunction_inStep hT h).call
        · exact clause?_paced hT (by decide) (disjunction_inStep hT h).call
      exact paced_returning hpredicate

theorem space_inStep : Reader.InStep T (bound + 1) (space inner) (space inner') fun _ => true := by
  intro start
  apply paced_bind (root_paced hT)
  intro root
  exact paced_returning (paced_many (join?_inStep hT h))

theorem spacesRound_inStep (spaces : List Space) :
    Reader.InStep T (bound + 1) (spacesRound inner spaces) (spacesRound inner' spaces)
      Option.isSome := by
  intro start
  apply paced_accepting (sign_paced hT (by decide))
  · apply paced_accepting (keyword_paced hT (by decide))
    · exact paced_returning (collectionJoin_inStep hT).call
    · exact paced_returning (space_inStep hT h).call
  · exact paced_pure fun h => h

theorem spaces_inStep :
    Reader.InStep T (bound + 1) (spaces inner) (spaces inner') fun _ => true := by
  intro start
  apply paced_bind (space_inStep hT h start)
  intro first
  exact paced_chain [first] (spacesRound_inStep hT h)

/-! ## Queries -/

theorem sortItem_inStep :
    Reader.InStep T (bound + 1) (sortItem inner) (sortItem inner') fun _ => true := by
  intro start
  apply paced_bind (concatenation_inStep hT h start)
  intro expression
  apply paced_bind (clause?_paced hT (by decide) (dottedName_paced hT))
  intro collation
  apply paced_bind (paced_optional (wordThat_paced hT _))
  intro ordering
  apply paced_pure
  intro _
  cases ordering with
  | none => rfl
  | some word => rfl

theorem orderClause_inStep :
    Reader.InStep T (bound + 1) (orderClause inner) (orderClause inner') fun _ => true := by
  intro start
  apply paced_bind (keyword_paced hT (by decide))
  intro _
  exact (InStep.separated (fun _ => sign_paced hT (by decide)) rfl (sortItem_inStep hT h)).call

theorem query_inStep :
    Reader.InStep T (bound + 1) (query inner) (query inner') fun _ => true := by
  intro start
  apply paced_bind (clause?_paced hT (by decide) (selectClause_inStep hT h).call)
  intro select
  apply paced_bind (keyword_paced hT (by decide))
  intro _
  apply paced_bind (spaces_inStep hT h).call
  intro spaces
  apply paced_bind (clause?_paced hT (by decide) (disjunction_inStep hT h).call)
  intro restriction
  apply paced_bind (clause?_paced hT (by decide) (orderClause_inStep hT h).call)
  intro order
  apply paced_bind (clause?_paced hT (by decide) (concatenation_inStep hT h).call)
  intro limit
  exact paced_returning (clause?_paced hT (by decide) (concatenation_inStep hT h).call)

/-! ## Statements -/

theorem assignment_inStep :
    Reader.InStep T (bound + 1) (assignment inner) (assignment inner') fun _ => true := by
  intro start
  apply paced_bind (dottedIdentifier_paced hT)
  intro path
  apply paced_bind (sign_paced hT (by decide))
  intro _
  exact paced_returning (concatenation_inStep hT h).call

theorem update_inStep :
    Reader.InStep T (bound + 1) (update inner) (update inner') fun _ => true := by
  intro start
  apply paced_bind (root_paced hT)
  intro target
  apply paced_bind (keyword_paced hT (by decide))
  intro _
  apply paced_bind
    (InStep.separated (fun _ => sign_paced hT (by decide)) rfl (assignment_inStep hT h)).call
  intro assignments
  exact paced_returning (clause?_paced hT (by decide) (disjunction_inStep hT h).call)

theorem deletion_inStep :
    Reader.InStep T (bound + 1) (deletion inner) (deletion inner') fun _ => true := by
  intro start
  apply paced_bind (paced_accepts (keyword_paced hT (by decide)))
  intro _
  apply paced_bind (root_paced hT)
  intro target
  exact paced_returning (clause?_paced hT (by decide) (disjunction_inStep hT h).call)

theorem insertion_inStep :
    Reader.InStep T (bound + 1) (insertion inner) (insertion inner') fun _ => true := by
  intro start
  apply paced_bind (keyword_paced hT (by decide))
  intro _
  apply paced_bind (dottedName_paced hT)
  intro target
  apply paced_bind (sign_paced hT (by decide))
  intro _
  apply paced_bind (InStep.separated (fun _ => sign_paced hT (by decide)) rfl
    fun _ => dottedIdentifier_paced hT).call
  intro stateFields
  apply paced_bind (sign_paced hT (by decide))
  intro _
  apply paced_looking (beginsWithWord_respects hT (by decide))
  · exact paced_returning (query_inStep hT h).call
  · exact paced_fail

theorem statementOver_inStep {query query' : Reader Query}
    (hquery : Reader.InStep T (bound + 1) query query' fun _ => true) :
    Reader.InStep T (bound + 1) (statementOver inner query) (statementOver inner' query')
      fun _ => true := by
  intro start
  apply paced_bind (blanks_paced hT)
  intro _
  apply paced_accepting (exactKeyword_paced hT (by decide))
  · exact (update_inStep hT h).call
  · apply paced_accepting (exactKeyword_paced hT (by decide))
    · exact (deletion_inStep hT h).call
    · apply paced_accepting (exactKeyword_paced hT (by decide))
      · exact (insertion_inStep hT h).call
      · exact paced_returning hquery.call

theorem statement_inStep :
    Reader.InStep T (bound + 1) (statement inner) (statement inner') fun _ => true :=
  statementOver_inStep hT h (query_inStep hT h)

/-! ## Levels and loops -/

omit h in
/-- A level keeps step if the levels of lower ranks do, and if the grammar below it does. -/
theorem Table.unfoldOver_inStep {lower lower' : Table} {level : Level}
    (hlower : ∀ callee : Level, callee.rank < level.rank →
      Reader.InStep T (bound + 1) (lower callee) (lower' callee) fun _ => true)
    (h : Inner.InStep T bound inner inner') :
    Reader.InStep T (bound + 1) (lower.unfoldOver inner level) (lower'.unfoldOver inner' level)
      fun _ => true := by
  cases level with
  | predicate => exact joined_inStep hT (by decide) .or (hlower .conjunction (by decide))
  | conjunction => exact joined_inStep hT (by decide) .and (hlower .negatable (by decide))
  | negatable => exact negatableOver_inStep hT h (hlower .primaryPredicate (by decide))
  | primaryPredicate =>
    exact primaryPredicateOver_inStep hT h (hlower .expressionPredicate (by decide))
  | expressionPredicate =>
    exact expressionPredicateOver_inStep hT h (hlower .expression (by decide))
  | expression => exact concatenationOver_inStep hT (hlower .additive (by decide))
  | additive =>
    exact leftGrouped_inStep (fun _ => operator_paced hT (by decide) (by decide))
      (hlower .multiplicative (by decide))
  | multiplicative =>
    exact leftGrouped_inStep (fun _ => operator_paced hT (by decide) (by decide))
      (hlower .signed (by decide))
  | signed => exact signedOver_inStep hT h (hlower .primary (by decide))
  | primary => exact primary_inStep hT h
  | query => exact query_inStep hT h
  | instantiation => exact instantiation_inStep hT h
  | statement => exact statementOver_inStep hT h (hlower .query (by decide))

theorem production_inStep (level : Level) :
    Reader.InStep T (bound + 1) (production inner level) (production inner' level)
      fun _ => true := by
  induction hrank : level.rank using Nat.strong_induction_on generalizing level with
  | _ rank ih =>
    rw [production_eq_unfoldOver inner, production_eq_unfoldOver inner']
    apply Table.unfoldOver_inStep hT _ h
    intro callee hlower
    exact ih callee.rank (hrank ▸ hlower) callee rfl

omit h in
/-- Some rounds enter the grammar themselves, so what they enter has to keep step at their bound. -/
theorem Loop.round_inStep (h : Inner.InStep T (bound + 1) inner inner') (loop : Loop)
    (carried : loop.Carried) :
    Reader.InStep T (bound + 1) (loop.round inner carried) (loop.round inner' carried)
      Option.isSome := by
  have hcomma : ∀ start : Start T (bound + 1),
      Paced start false (sign ",") (sign ",") fun _ => true :=
    fun _ => sign_paced hT (by decide)
  have hlower := h.mono (Nat.le_succ bound)
  cases loop with
  | disjunction =>
    exact joinedRound_inStep hT (by decide) .or (conjunction_inStep hT hlower) carried
  | conjunction =>
    exact joinedRound_inStep hT (by decide) .and (negatable_inStep hT hlower) carried
  | concatenation => exact concatenationRound_inStep hT (additive_inStep hT hlower) carried
  | addition =>
    exact leftGroupedRound_inStep (fun _ => operator_paced hT (by decide) (by decide))
      (multiplicative_inStep hT hlower) carried
  | multiplication =>
    exact leftGroupedRound_inStep (fun _ => operator_paced hT (by decide) (by decide))
      (signed_inStep hT hlower) carried
  | arguments => exact (InStep.behind hcomma rfl h.expression).pushing carried
  | searchedWhens => exact (searchedWhen_inStep hT h).pushing carried
  | simpleWhens => exact (simpleWhen_inStep hT h).pushing carried
  | dottedParts => exact (dottedPart_inStep hT).pushing carried
  | selectItems => exact (InStep.behind hcomma rfl (selectItem_inStep hT hlower)).pushing carried
  | spaces => exact spacesRound_inStep hT hlower carried
  | joins => exact (join?_inStep hT hlower).pushing carried
  | sortItems => exact (InStep.behind hcomma rfl (sortItem_inStep hT hlower)).pushing carried
  | assignments =>
    exact (InStep.behind hcomma rfl (assignment_inStep hT hlower)).pushing carried
  | stateFields =>
    exact (InStep.behind hcomma rfl fun _ => dottedIdentifier_paced hT).pushing carried

/-! ## Layers -/

theorem Inner.InStep.layer : Inner.InStep T (bound + 1) inner.layer inner'.layer where
  predicate := disjunction_inStep hT h
  negatable := negatable_inStep hT h
  expression := concatenation_inStep hT h
  signed := signed_inStep hT h
  query := query_inStep hT h
  instantiation := instantiation_inStep hT h

end

/-- Layers that are not fewer than the bound keep step, whatever lies below them: below the bound
there is no text. -/
theorem Inner.inStep_iterate {depth depth' : Nat} (base base' : Inner) (hdepth : bound ≤ depth)
    (hdepth' : bound ≤ depth') :
    Inner.InStep T bound (Inner.layer^[depth] base) (Inner.layer^[depth'] base') := by
  induction bound generalizing depth depth' with
  | zero =>
    have hnone : ∀ {α : Type} (reader reader' : Reader α) after,
        Reader.InStep T 0 reader reader' after :=
      fun _ _ _ start => absurd start.bounded (Nat.not_lt_zero _)
    exact ⟨hnone _ _ _, hnone _ _ _, hnone _ _ _, hnone _ _ _, hnone _ _ _, hnone _ _ _⟩
  | succ bound ih =>
    obtain ⟨depth, rfl⟩ : ∃ fewer, depth = fewer + 1 := ⟨depth - 1, by omega⟩
    obtain ⟨depth', rfl⟩ : ∃ fewer, depth' = fewer + 1 := ⟨depth' - 1, by omega⟩
    rw [Function.iterate_succ_apply', Function.iterate_succ_apply']
    exact (ih (by omega) (by omega)).layer hT

omit hT in
theorem Inner.ofDepth_eq_iterate (depth : Nat) :
    Inner.ofDepth depth = Inner.layer^[depth] Inner.none := by
  induction depth with
  | zero => rfl
  | succ depth ih => rw [Function.iterate_succ_apply', Inner.ofDepth, ih]

theorem Inner.inStep_ofDepth (bound depth depth' : Nat) :
    Inner.InStep T bound (Inner.ofDepth (bound + depth)) (Inner.ofDepth (bound + depth')) := by
  rw [Inner.ofDepth_eq_iterate, Inner.ofDepth_eq_iterate]
  exact Inner.inStep_iterate hT _ _ (Nat.le_add_right _ _) (Nat.le_add_right _ _)

end

end EntityQuery.Grammar

import EntityQuery.Grammar.Query
import EntityQuery.Proofs.FoldedTokens
import Mathlib.Data.List.Forall2

/-!
# Readers of texts in small letters

Two readers are run, one on a text and one on the text in small letters. They go together if they
stop at the same place, both with values or both with failures, and the values are related. One rule
for each way of putting readers together brings this down to tokens.

* `Reader.Folds`: two readers go together up to a relation of their values.
* `folds_bind`, `folds_accepting`, `folds_looking`, `folds_optional`, `folds_chain`, `folds_many`,
  `folds_separated`: readers that are put together.
* `keyword_folds`, `sign_folds`, `identifier_folds`, `dottedName_folds`, `literalToken_folds`: words,
  signs and literals.
-/

namespace EntityQuery.Grammar

open EntityQuery.Text
open EntityQuery.Phrase (Literal)

/-- The replies stop at the same place, with related values or both with failures. -/
inductive Reply.Folds {α β : Type} (R : α → β → Prop) : Reply α → Reply β → Prop where
  | ok {value : α} {small : β} {rest : List Char} (h : R value small) :
    Reply.Folds R (.ok value rest) (.ok small (foldCase rest))
  | fail (rest : List Char) : Reply.Folds R (.fail rest) (.fail (foldCase rest))

theorem Reply.Folds.replies {α β : Type} {R : α → β → Prop} {reply : Reply α} {small : Reply β}
    (h : reply.Folds R small) :
    (∃ value other rest, reply = .ok value rest ∧ small = .ok other (foldCase rest) ∧ R value other)
      ∨ ∃ rest, reply = .fail rest ∧ small = .fail (foldCase rest) := by
  cases h with
  | ok h => exact .inl ⟨_, _, _, rfl, rfl, h⟩
  | fail rest => exact .inr ⟨rest, rfl, rfl⟩

namespace Reader

/-- On a text in small letters the second reader does what the first one does on the text. -/
def Folds {α β : Type} (reader : Reader α) (small : Reader β) (R : α → β → Prop) : Prop :=
  ∀ text, (reader text).Folds R (small (foldCase text))

section

variable {α β γ δ : Type} {R : α → β → Prop} {S : γ → δ → Prop} {reader : Reader α}
  {small : Reader β}

/-! ## One part after another -/

theorem folds_pure {value : α} {other : β} (h : R value other) :
    (pure value : Reader α).Folds (pure other) R :=
  fun _ => .ok h

theorem folds_fail : (fail : Reader α).Folds (fail : Reader β) R :=
  fun text => .fail text

theorem folds_failAt (start : List Char) :
    (failAt start : Reader α).Folds (failAt (foldCase start) : Reader β) R :=
  fun _ => .fail start

theorem folds_backTo (start : List Char) {value : α} {other : β} (h : R value other) :
    (backTo start value).Folds (backTo (foldCase start) other) R :=
  fun _ => .ok h

theorem folds_mono {R' : α → β → Prop} (h : reader.Folds small R)
    (himp : ∀ value other, R value other → R' value other) : reader.Folds small R' := by
  intro text
  rcases (h text).replies with ⟨value, other, rest, hread, hsmall, hvalue⟩ | ⟨rest, hread, hsmall⟩
  · rw [hread, hsmall]
    exact .ok (himp _ _ hvalue)
  · rw [hread, hsmall]
    exact .fail rest

theorem folds_bind {next : α → Reader γ} {other : β → Reader δ} (h : reader.Folds small R)
    (hnext : ∀ value value', R value value' → (next value).Folds (other value') S) :
    (reader >>= next).Folds (small >>= other) S := by
  intro text
  rcases (h text).replies with ⟨value, other, rest, hread, hsmall, hvalue⟩ | ⟨rest, hread, hsmall⟩
  · rw [bind_ok hread, bind_ok hsmall]
    exact hnext _ _ hvalue rest
  · rw [bind_fail hread, bind_fail hsmall]
    exact .fail rest

/-- Nothing is asked of the first value. -/
theorem folds_then {next : α → Reader γ} {other : β → Reader δ} (h : reader.Folds small R)
    (hnext : ∀ value value', (next value).Folds (other value') S) :
    (reader >>= next).Folds (small >>= other) S :=
  folds_bind h fun value value' _ => hnext value value'

theorem Folds.reply (h : reader.Folds small R) (text : List Char) :
    (reader text).Folds R (small (foldCase text)) :=
  h text

/-! ## Choices -/

theorem folds_optional (h : reader.Folds small R) :
    (optional reader).Folds (optional small) (Option.Rel R) := by
  intro text
  rcases (h text).replies with ⟨value, other, rest, hread, hsmall, hvalue⟩ | ⟨rest, hread, hsmall⟩
  · rw [optional_ok hread, optional_ok hsmall]
    exact .ok (.some hvalue)
  · rw [optional_fail hread, optional_fail hsmall]
    exact .ok .none

theorem folds_accepts {token token' : Reader Unit} {P : Unit → Unit → Prop}
    (h : token.Folds token' P) : (accepts token).Folds (accepts token') Eq := by
  intro text
  rcases (h text).replies with ⟨_, _, rest, hread, hsmall, -⟩ | ⟨rest, hread, hsmall⟩
  · rw [accepts_ok hread, accepts_ok hsmall]
    exact .ok rfl
  · rw [accepts_fail hread, accepts_fail hsmall]
    exact .ok rfl

theorem folds_accepting {token token' : Reader Unit} {P : Unit → Unit → Prop}
    {yes no : Reader α} {yes' no' : Reader β} (h : token.Folds token' P)
    (hyes : yes.Folds yes' R) (hno : no.Folds no' R) :
    (do if ← accepts token then yes else no).Folds (do if ← accepts token' then yes' else no')
      R := by
  refine folds_bind (folds_accepts h) ?_
  rintro found _ rfl
  split
  · exact hyes
  · exact hno

theorem folds_looking {test : List Char → Bool} {yes no : Reader α} {yes' no' : Reader β}
    (h : ∀ text, test (foldCase text) = test text) (hyes : yes.Folds yes' R)
    (hno : no.Folds no' R) :
    (do if ← look test then yes else no).Folds (do if ← look test then yes' else no') R := by
  intro text
  rw [bind_apply, bind_apply]
  simp only [look, h]
  split
  · exact hyes text
  · exact hno text

/-! ## Repetition -/

section

variable {step : α → Reader (Option α)} {step' : β → Reader (Option β)}

theorem folds_chainUpTo
    (hstep : ∀ value value', R value value' → (step value).Folds (step' value') (Option.Rel R))
    (rounds : Nat) : ∀ {value : α} {value' : β}, R value value' →
      (chainUpTo step rounds value).Folds (chainUpTo step' rounds value') R := by
  induction rounds with
  | zero => exact fun h => folds_pure h
  | succ rounds ih =>
    intro value value' h
    refine folds_bind (hstep value value' h) ?_
    rintro _ _ (hnext | _)
    · exact ih hnext
    · exact folds_pure h

/-- A text in small letters is as long, so there are as many rounds. -/
theorem folds_chain {value : α} {value' : β} (h : R value value')
    (hstep : ∀ value value', R value value' → (step value).Folds (step' value') (Option.Rel R)) :
    (chain step value).Folds (chain step' value') R := by
  intro text
  unfold chain
  rw [foldCase_length]
  exact folds_chainUpTo hstep (text.length + 1) h text

end

section

variable {item : Reader (Option α)} {item' : Reader (Option β)}

theorem folds_manyUpTo (h : item.Folds item' (Option.Rel R)) (rounds : Nat) :
    (manyUpTo item rounds).Folds (manyUpTo item' rounds) (List.Forall₂ R) := by
  induction rounds with
  | zero => exact folds_pure .nil
  | succ rounds ih =>
    refine folds_bind h ?_
    rintro _ _ (hvalue | _)
    · exact folds_bind ih fun _ _ hvalues => folds_pure (.cons hvalue hvalues)
    · exact folds_pure .nil

theorem folds_many (h : item.Folds item' (Option.Rel R)) :
    (many item).Folds (many item') (List.Forall₂ R) := by
  intro text
  unfold many
  rw [foldCase_length]
  exact folds_manyUpTo h (text.length + 1) text

end

theorem folds_separated {separator separator' : Reader Unit} {P : Unit → Unit → Prop}
    (hseparator : separator.Folds separator' P) (h : reader.Folds small R) :
    (separated separator reader).Folds (separated separator' small) (List.Forall₂ R) := by
  refine folds_bind h fun first first' hfirst => ?_
  refine folds_bind (folds_many (R := R) (folds_accepting hseparator ?_ (folds_pure .none)))
    fun others others' hothers => folds_pure (.cons hfirst hothers)
  exact folds_bind h fun value value' hvalue => folds_pure (.some hvalue)

end

/-! ## Tokens -/

theorem folds_token {drop? : List Char → Option (List Char)}
    (h : ∀ text, drop? (foldCase text) = (drop? text).map foldCase) :
    (token drop?).Folds (token drop?) Eq := by
  intro text
  unfold token
  rw [h]
  cases drop? text with
  | some rest => exact .ok rfl
  | none => exact .fail text

end Reader

open Reader

theorem blanks_folds : blanks.Folds blanks Eq := by
  intro text
  unfold blanks
  rw [trimStart_foldCase]
  exact .ok rfl

theorem exactSign_folds {text : String} (h : Unlettered text) :
    (exactSign text).Folds (exactSign text) Eq :=
  folds_token (dropSign?_foldCase h)

theorem sign_folds {text : String} (h : Unlettered text) : (sign text).Folds (sign text) Eq :=
  folds_token fun source => by rw [trimStart_foldCase, dropSign?_foldCase h]

theorem exactKeyword_folds (word : String) : (exactKeyword word).Folds (exactKeyword word) Eq :=
  folds_token (dropKeyword?_foldCase word.toList)

theorem keyword_folds (word : String) : (keyword word).Folds (keyword word) Eq :=
  folds_token fun source => by rw [trimStart_foldCase, dropKeyword?_foldCase]

theorem beginsWithSign_foldCase {text : String} (h : Unlettered text) (source : List Char) :
    beginsWithSign text (foldCase source) = beginsWithSign text source := by
  rw [beginsWithSign, trimStart_foldCase, dropSign?_foldCase h, Option.isSome_map,
    ← beginsWithSign]

theorem beginsWithWord_foldCase (word : String) (source : List Char) :
    beginsWithWord word (foldCase source) = beginsWithWord word source := by
  rw [beginsWithWord, trimStart_foldCase, dropKeyword?_foldCase, Option.isSome_map,
    ← beginsWithWord]

theorem beginsQuery_foldCase (source : List Char) :
    beginsQuery (foldCase source) = beginsQuery source := by
  rw [beginsQuery, beginsWithWord_foldCase, beginsWithWord_foldCase, ← beginsQuery]

/-! ## Words and names -/

/-- The second word is the first one, an identifier, in small letters. -/
def Spells (word small : String) : Prop := lowered word = small ∧ IsWord word

theorem wordThat_folds {test : String → Bool} (h : ∀ word, test (lowered word) = test word) :
    (wordThat test).Folds (wordThat test) Spells := by
  intro text
  unfold wordThat
  rw [trimStart_foldCase, takeWord?_foldCase]
  cases hread : takeWord? (trimStart text) with
  | none => exact .fail text
  | some read =>
    obtain ⟨word, rest⟩ := read
    simp only [Option.map_some, Prod.map_apply, h]
    split
    · exact .ok ⟨rfl, (takeWord?_eq_some hread).2.1⟩
    · exact .fail text

theorem anyIdentifier_folds : anyIdentifier.Folds anyIdentifier Spells :=
  wordThat_folds fun _ => rfl

theorem identifier_folds : identifier.Folds identifier Spells :=
  wordThat_folds fun word => by rw [isReserved_lowered]

/-- Members that are related by a function are mapped by it. -/
theorem map_of_forall₂ {α β : Type} {f : α → β} {R : α → β → Prop}
    (himp : ∀ value other, R value other → f value = other) {values : List α} {others : List β}
    (h : List.Forall₂ R values others) : values.map f = others := by
  rw [← List.forall₂_eq_eq_eq, List.forall₂_map_left_iff]
  exact h.imp himp

theorem map_of_rel {α β : Type} {f : α → β} {R : α → β → Prop}
    (himp : ∀ value other, R value other → f value = other) {value : Option α} {other : Option β}
    (h : Option.Rel R value other) : value.map f = other := by
  cases h with
  | some h => exact congrArg some (himp _ _ h)
  | none => rfl

theorem dottedTail_folds {first small : String} (h : lowered first = small) :
    (dottedTail first).Folds (dottedTail small) fun name other => name.lowered = other := by
  have hpart : (optional do sign "."; anyIdentifier).Folds (optional do sign "."; anyIdentifier)
      (Option.Rel Spells) :=
    folds_optional (folds_then (sign_folds (by decide)) fun _ _ => anyIdentifier_folds)
  refine folds_bind (folds_many hpart) fun parts parts' hparts => folds_pure ?_
  rw [← h, ← map_of_forall₂ (fun _ _ => And.left) hparts]
  rfl

theorem dottedIdentifier_folds :
    dottedIdentifier.Folds dottedIdentifier fun name other => name.lowered = other :=
  folds_bind identifier_folds fun _ _ h => dottedTail_folds h.1

theorem dottedName_folds : dottedName.Folds dottedName fun name other => name.lowered = other :=
  folds_bind anyIdentifier_folds fun _ _ h => dottedTail_folds h.1

theorem optionalAlias_folds : optionalAlias.Folds optionalAlias (Option.Rel Spells) := by
  refine folds_accepting (keyword_folds "as") ?_ (folds_optional identifier_folds)
  exact folds_bind identifier_folds fun _ _ h => folds_pure (.some h)

/-! ## Literals and parameters -/

theorem literalToken_folds :
    literalToken.Folds literalToken fun token small => token.lowered = small ∧ token.IsRead := by
  intro text
  cases hread : literal? text with
  | none =>
    unfold literalToken
    rw [literal?_foldCase, hread]
    exact .fail text
  | some read =>
    obtain ⟨token, rest⟩ := read
    have htoken := literalToken_of_some hread
    rw [htoken, literalToken_of_some ((literal?_foldCase text).trans (congrArg _ hread))]
    exact .ok ⟨rfl, text, rest, htoken⟩

theorem position_folds : position.Folds position Eq := by
  intro text
  unfold position
  simp only [takeWhile_isDigit_foldCase, foldCase_dropWhile caseless_isDigit]
  split
  · exact .fail text
  · split
    · exact .ok rfl
    · exact .fail _

theorem parameter_folds :
    parameter.Folds parameter fun found small => found.map Phrase.Parameter.lowered = small := by
  refine folds_accepting (exactSign_folds (by decide)) ?_
    (folds_accepting (exactSign_folds (by decide)) ?_ (folds_pure rfl))
  · refine folds_bind anyIdentifier_folds fun name small h => folds_pure ?_
    rw [← h.1]
    rfl
  · refine folds_bind position_folds ?_
    rintro number _ rfl
    exact folds_pure rfl

end EntityQuery.Grammar

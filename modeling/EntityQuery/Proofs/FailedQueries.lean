import EntityQuery.Proofs.BuiltStatements
import EntityQuery.Proofs.FailedCalls

/-!
# Why queries fail

The spaces of a from clause get their roots one by one before anything is joined to them, and no
step takes a root away. A phrase that is read in a sound state therefore fails for the names, the
types and the shapes of what is written in it, and never because a from clause was lost. The proof
follows the recursion of the steps on the phrase.

* `Step.expression_faults`, `Step.predicate_faults`, `Step.query_faults`: trees.
* `Step.statement_faults`: statements.
* `interpretPhrase_regular`: no phrase of any shape meets an internal fault.
-/

namespace EntityQuery.Interpretation.Step

open Phrase (Part)
open Resolved (Expression)

variable {schema : Schema} {before : Context} {parts : List Part}

/-- A tree is built in a sound state, and the next one finds a sound state. -/
theorem faults_bind {α β : Type} {bound : α → List FromElement}
    {meets : Resolved.Rules → List FromElement → α → Prop} {first : Step α} {second : α → Step β}
    (hbuilds : Builds bound meets schema False before first)
    (hfirst : Faults parts schema before first)
    (hsecond : ∀ value {between : Context}, between.Sound schema False →
      Faults parts schema between (second value)) : Faults parts schema before (first >>= second) :=
  fails_bind hbuilds hfirst fun value _ ⟨hadvances, _⟩ => hsecond value hadvances.sound

/-- An operation that has not two operands is blamed. -/
theorem arithmetic_blamed {operator : ArithmeticOperator} {operands : List Phrase.Expression}
    (h : (Phrase.Expression.arithmetic operator operands).parts ⊆ parts)
    (hcount : operands.length ≠ 2) :
    Faults parts schema before
      (throw (.operandCount .arithmetic operands.length) : Step Expression) :=
  fails_throw (Fault.blamed_part rfl (List.cons_subset.mp h).1 ⟨rfl, hcount⟩)

/-- A concatenation that has not two operands is blamed. -/
theorem concatenation_blamed {operands : List Phrase.Expression}
    (h : (Phrase.Expression.concatenation operands).parts ⊆ parts)
    (hcount : operands.length ≠ 2) :
    Faults parts schema before
      (throw (.operandCount .concatenation operands.length) : Step Expression) :=
  fails_throw (Fault.blamed_part rfl (List.cons_subset.mp h).1 ⟨rfl, hcount⟩)

theorem call_faults {name : String} {generic distinct star : Bool}
    {arguments : List Phrase.Expression} (hsound : before.Sound schema False)
    (hmem : .expression (.call name generic distinct star arguments) ∈ parts)
    (hone : ∀ argument, arguments = [argument] → ∀ {between : Context},
      between.Sound schema False → Faults parts schema between (expression argument))
    (hall : ∀ {between : Context}, between.Sound schema False →
      Faults parts schema between (expressions arguments)) :
    Faults parts schema before (expression (.call name generic distinct star arguments)) := by
  simp only [expression]
  split
  · rename_i function hfunction
    have hnamed : generic = false ∧ CollectionFunction.ofName? name = some function := by
      cases generic with
      | true => cases hfunction
      | false => exact ⟨rfl, hfunction⟩
    obtain ⟨rfl, hname⟩ := hnamed
    refine fails_bind (announceCollectionFunction_ends hsound function)
      (announceCollectionFunction_faults function) fun _ between hadvances => ?_
    split
    · split
      · exact indexOfJoin_faults hadvances.sound _
      · exact fails_then (hone _ rfl hadvances.sound) fun _ => collectionFunction_faults _ _
    · rename_i hcount
      refine fails_throw (Fault.blamed_part rfl hmem ⟨hname, rfl, fun hlength => ?_⟩)
      obtain ⟨argument, hargument⟩ := List.length_eq_one_iff.mp hlength
      exact hcount argument hargument
  · refine fails_bind (announceCall_ends hsound _ _ _) (announceCall_faults _ _ _)
      fun _ between hadvances => ?_
    exact fails_then (hall hadvances.sound) fun _ => fails_pure

/-! ## Spaces -/

/-- A space without a root is opened. -/
theorem openSpace_sound (hsound : before.Sound schema False) :
    Ends schema before openSpace fun id after => after.Sound schema False
      ∧ ∃ opened below, before.levels = opened :: below
        ∧ after.levels = (opened ++ [.vacant]) :: below ∧ id = ⟨below.length, opened.length⟩ := by
  refine ends_openSpace fun id levels hopen => ?_
  obtain ⟨hextends, opened, below, hlevels, hopened, rfl⟩ := hsound.opensSpace hopen
  exact ⟨hextends.sound, opened, below, hlevels, hopened, rfl⟩

theorem openSpace_faults (hrooted : before.levels.Rooted) :
    Faults parts schema before openSpace := by
  refine fails_get_bind ?_
  obtain ⟨clause, rest, hroots⟩ := hrooted
  cases hlevels : before.levels with
  | nil =>
    rw [hlevels] at hroots
    cases hroots
  | cons opened below =>
    intro fault after hrun
    cases hrun

section

variable {opened : List OpenSpace} {below : Levels}
  (hopened : before.levels = (opened ++ [.vacant]) :: below)
include hopened

/-- The space that was opened last gets its root. -/
theorem openedRoot_ends (hsound : before.Sound schema False) (written : Phrase.Root) :
    Ends schema before (root ⟨below.length, opened.length⟩ written) fun element after =>
      after.Sound schema False ∧ after.levels = (opened ++ [.rooted element []]) :: below := by
  refine ends_mono (root_ends hsound (by rw [hopened]; rfl) False.elim) ?_
  rintro element after ⟨hextends, -, -, -, -, place, hvacant, hplace, hfilled⟩
  have hfill : (⟨[], opened, [], below⟩ : Place).fill .vacant = place.fill .vacant := by
    rw [← hvacant, hopened]
    rfl
  obtain ⟨rfl, -⟩ := Place.fill_inj hfill hplace.symm
  exact ⟨hextends.sound, hfilled⟩

theorem openedRoot_faults (written : Phrase.Root) :
    Faults parts schema before (root ⟨below.length, opened.length⟩ written) := by
  have hplace : before.levels = (⟨[], opened, [], below⟩ : Place).fill .vacant := hopened
  exact root_faults hplace written

end

/-- A space has a root when the next one is opened. -/
theorem space_rooted (hsound : before.Sound schema False) (hrooted : before.levels.Rooted)
    (written : Phrase.Space) :
    Ends schema before (space written) fun _ after =>
      after.Sound schema False ∧ after.levels.Rooted := by
  obtain ⟨written, hanging⟩ := written
  refine ends_bind (openSpace_sound hsound) ?_
  rintro id first ⟨hfirst, opened, below, hlevels, hopened, rfl⟩
  refine ends_bind (openedRoot_ends hopened hfirst written) ?_
  rintro element second ⟨hsecond, hfilled⟩
  refine ends_mono (joins_end hanging False.elim hsecond ?_) ?_
  · rw [hfilled]
    rfl
  rintro _ after hadvances
  refine ⟨hadvances.sound, ?_⟩
  rw [hlevels] at hrooted
  obtain ⟨clause, rest, hroots⟩ := hrooted.opened element []
  exact ⟨clause, rest, by rw [hadvances.roots, hfilled, hroots]⟩

theorem spaces_rooted (hsound : before.Sound schema False) (hrooted : before.levels.Rooted)
    (written : List Phrase.Space) :
    Ends schema before (spaces written) fun _ after =>
      after.Sound schema False ∧ after.levels.Rooted := by
  induction written generalizing before with
  | nil => exact ends_pure ⟨hsound, hrooted⟩
  | cons first rest ih =>
    exact ends_bind (space_rooted hsound hrooted first)
      fun _ _ ⟨hbetween, hnext⟩ => ih hbetween hnext

/-- A level whose spaces have roots fails with its steps only. -/
theorem level_faults {α : Type} {step : Step α}
    (h : Ends schema before.openLevel step (fun _ after => after.levels.Rooted)
      ∧ Faults parts schema before.openLevel step) : Faults parts schema before (onLevel step) := by
  refine fails_onLevel h.1 h.2 ?_
  rintro value after ⟨clause, below, hroots⟩ fault hclose
  obtain ⟨spaces, hspaces, -⟩ := Levels.Rooted.close hroots
  rw [hspaces] at hclose
  cases hclose

/-! ## Trees -/

mutual

theorem expression_faults : ∀ (written : Phrase.Expression) {before : Context},
    written.parts ⊆ parts → before.Sound schema False →
      Faults parts schema before (expression written)
  | .literal _, _, h, _ => literal_faults (List.cons_subset.mp h).1
  | .parameter written, _, _, _ => parameter_faults written
  | .path dotted, _, _, hsound => pathOrCall_faults hsound dotted
  | .indexed base index remainder, _, h, hsound =>
    faults_bind (expression_builds index False.elim hsound)
      (expression_faults index (List.cons_subset.mp h).2 hsound)
      fun _ _ hbetween => indexed_faults hbetween base _ remainder
  | .treated base entity remainder, _, _, hsound => treated_faults hsound base entity remainder
  | .mapFunction function argument, _, _, hsound => mapEntry_faults hsound function argument
  | .arithmetic _ [left, right], _, h, hsound =>
    have ⟨hleft, hrest⟩ := List.append_subset.mp (List.cons_subset.mp h).2
    have ⟨hright, _⟩ := List.append_subset.mp hrest
    faults_bind (expression_builds left False.elim hsound) (expression_faults left hleft hsound)
      fun _ _ hbetween => fails_then (expression_faults right hright hbetween) fun _ => fails_pure
  | .arithmetic _ [], _, h, _ => arithmetic_blamed h nofun
  | .arithmetic _ [_], _, h, _ => arithmetic_blamed h nofun
  | .arithmetic _ (_ :: _ :: _ :: _), _, h, _ => arithmetic_blamed h (by simp)
  | .concatenation [left, right], _, h, hsound =>
    have ⟨hleft, hrest⟩ := List.append_subset.mp (List.cons_subset.mp h).2
    have ⟨hright, _⟩ := List.append_subset.mp hrest
    faults_bind (expression_builds left False.elim hsound) (expression_faults left hleft hsound)
      fun _ _ hbetween => fails_then (expression_faults right hright hbetween) fun _ => fails_pure
  | .concatenation [], _, h, _ => concatenation_blamed h nofun
  | .concatenation [_], _, h, _ => concatenation_blamed h nofun
  | .concatenation (_ :: _ :: _ :: _), _, h, _ => concatenation_blamed h (by simp)
  | .unary _ operand, _, h, hsound =>
    fails_then (expression_faults operand (List.cons_subset.mp h).2 hsound) fun _ => fails_pure
  | .grouped inner, _, h, hsound => expression_faults inner (List.cons_subset.mp h).2 hsound
  | .call _ _ _ _ [], _, h, hsound =>
    call_faults hsound (List.cons_subset.mp h).1 (fun _ hone => by cases hone)
      (expressions_fault [] (List.cons_subset.mp h).2)
  | .call _ _ _ _ [argument], _, h, hsound =>
    call_faults hsound (List.cons_subset.mp h).1
      (fun _ hone => by
        cases hone
        exact expression_faults argument (List.append_subset.mp (List.cons_subset.mp h).2).1)
      (expressions_fault [argument] (List.cons_subset.mp h).2)
  | .call _ _ _ _ (first :: second :: rest), _, h, hsound =>
    call_faults hsound (List.cons_subset.mp h).1 (fun _ hone => by cases hone)
      (expressions_fault (first :: second :: rest) (List.cons_subset.mp h).2)
  | .simpleCase operand whens otherwise, _, h, hsound =>
    have ⟨hboth, hotherwise⟩ := List.append_subset.mp (List.cons_subset.mp h).2
    have ⟨hoperand, hwhens⟩ := List.append_subset.mp hboth
    faults_bind (expression_builds operand False.elim hsound)
      (expression_faults operand hoperand hsound) fun _ _ hfirst =>
        faults_bind (simpleWhens_build whens False.elim hfirst)
          (simpleWhens_fault whens hwhens hfirst) fun _ _ hsecond =>
            fails_then (optional_faults otherwise hotherwise hsecond) fun _ => fails_pure
  | .searchedCase whens otherwise, _, h, hsound =>
    have ⟨hwhens, hotherwise⟩ := List.append_subset.mp (List.cons_subset.mp h).2
    faults_bind (searchedWhens_build whens False.elim hsound)
      (searchedWhens_fault whens hwhens hsound) fun _ _ hbetween =>
        fails_then (optional_faults otherwise hotherwise hbetween) fun _ => fails_pure
  | .subquery nested, _, h, hsound =>
    fails_then (query_faults nested true (List.cons_subset.mp h).2 hsound) fun _ => fails_pure

theorem expressions_fault : ∀ (written : List Phrase.Expression) {before : Context},
    Phrase.expressionsParts written ⊆ parts → before.Sound schema False →
      Faults parts schema before (expressions written)
  | [], _, _, _ => fails_pure
  | first :: rest, _, h, hsound =>
    have ⟨hfirst, hrest⟩ := List.append_subset.mp h
    faults_bind (expression_builds first False.elim hsound) (expression_faults first hfirst hsound)
      fun _ _ hbetween => fails_then (expressions_fault rest hrest hbetween) fun _ => fails_pure

theorem optional_faults : ∀ (written : Option Phrase.Expression) {before : Context},
    Phrase.optionalParts written ⊆ parts → before.Sound schema False →
      Faults parts schema before (optional written)
  | none, _, _, _ => fails_pure
  | some written, _, h, hsound =>
    fails_then (expression_faults written h hsound) fun _ => fails_pure

theorem simpleWhen_faults : ∀ (written : Phrase.SimpleWhen) {before : Context},
    written.parts ⊆ parts → before.Sound schema False →
      Faults parts schema before (simpleWhen written)
  | .mk value result, _, h, hsound =>
    have ⟨hvalue, hresult⟩ := List.append_subset.mp h
    faults_bind (expression_builds value False.elim hsound) (expression_faults value hvalue hsound)
      fun _ _ hbetween => fails_then (expression_faults result hresult hbetween) fun _ => fails_pure

theorem simpleWhens_fault : ∀ (written : List Phrase.SimpleWhen) {before : Context},
    Phrase.simpleWhensParts written ⊆ parts → before.Sound schema False →
      Faults parts schema before (simpleWhens written)
  | [], _, _, _ => fails_pure
  | first :: rest, _, h, hsound =>
    have ⟨hfirst, hrest⟩ := List.append_subset.mp h
    faults_bind (simpleWhen_builds first False.elim hsound) (simpleWhen_faults first hfirst hsound)
      fun _ _ hbetween => fails_then (simpleWhens_fault rest hrest hbetween) fun _ => fails_pure

theorem searchedWhen_faults : ∀ (written : Phrase.SearchedWhen) {before : Context},
    written.parts ⊆ parts → before.Sound schema False →
      Faults parts schema before (searchedWhen written)
  | .mk condition result, _, h, hsound =>
    have ⟨hcondition, hresult⟩ := List.append_subset.mp h
    faults_bind (predicate_builds condition False.elim hsound)
      (predicate_faults condition hcondition hsound)
      fun _ _ hbetween => fails_then (expression_faults result hresult hbetween) fun _ => fails_pure

theorem searchedWhens_fault : ∀ (written : List Phrase.SearchedWhen) {before : Context},
    Phrase.searchedWhensParts written ⊆ parts → before.Sound schema False →
      Faults parts schema before (searchedWhens written)
  | [], _, _, _ => fails_pure
  | first :: rest, _, h, hsound =>
    have ⟨hfirst, hrest⟩ := List.append_subset.mp h
    faults_bind (searchedWhen_builds first False.elim hsound)
      (searchedWhen_faults first hfirst hsound)
      fun _ _ hbetween => fails_then (searchedWhens_fault rest hrest hbetween) fun _ => fails_pure

theorem predicate_faults : ∀ (written : Phrase.Predicate) {before : Context},
    written.parts ⊆ parts → before.Sound schema False →
      Faults parts schema before (predicate written)
  | .and left right, _, h, hsound =>
    have ⟨hleft, hright⟩ := List.append_subset.mp (List.cons_subset.mp h).2
    faults_bind (predicate_builds left False.elim hsound) (predicate_faults left hleft hsound)
      fun _ _ hbetween => fails_then (predicate_faults right hright hbetween) fun _ => fails_pure
  | .or left right, _, h, hsound =>
    have ⟨hleft, hright⟩ := List.append_subset.mp (List.cons_subset.mp h).2
    faults_bind (predicate_builds left False.elim hsound) (predicate_faults left hleft hsound)
      fun _ _ hbetween => fails_then (predicate_faults right hright hbetween) fun _ => fails_pure
  | .not inner, _, h, hsound =>
    fails_then (predicate_faults inner (List.cons_subset.mp h).2 hsound) fun _ => fails_pure
  | .grouped inner, _, h, hsound =>
    fails_then (predicate_faults inner (List.cons_subset.mp h).2 hsound) fun _ => fails_pure
  | .comparison _ left right, _, h, hsound =>
    have ⟨hleft, hright⟩ := List.append_subset.mp (List.cons_subset.mp h).2
    faults_bind (expression_builds left False.elim hsound) (expression_faults left hleft hsound)
      fun _ _ hbetween => fails_then (expression_faults right hright hbetween) fun _ => fails_pure
  | .between tested lower upper _, _, h, hsound =>
    have ⟨hboth, hupper⟩ := List.append_subset.mp (List.cons_subset.mp h).2
    have ⟨htested, hlower⟩ := List.append_subset.mp hboth
    faults_bind (expression_builds tested False.elim hsound)
      (expression_faults tested htested hsound) fun _ _ hfirst =>
        faults_bind (expression_builds lower False.elim hfirst)
          (expression_faults lower hlower hfirst) fun _ _ hsecond =>
            fails_then (expression_faults upper hupper hsecond) fun _ => fails_pure
  | .like matched pattern escape _, _, h, hsound =>
    have ⟨hboth, hescape⟩ := List.append_subset.mp (List.cons_subset.mp h).2
    have ⟨hmatched, hpattern⟩ := List.append_subset.mp hboth
    faults_bind (expression_builds matched False.elim hsound)
      (expression_faults matched hmatched hsound) fun _ _ hfirst =>
        faults_bind (expression_builds pattern False.elim hfirst)
          (expression_faults pattern hpattern hfirst) fun _ _ hsecond =>
            fails_then (optional_faults escape hescape hsecond) fun _ => fails_pure
  | .inList tested items _, _, h, hsound =>
    have ⟨htested, hitems⟩ := List.append_subset.mp (List.cons_subset.mp h).2
    faults_bind (expression_builds tested False.elim hsound)
      (expression_faults tested htested hsound)
      fun _ _ hbetween => fails_then (expressions_fault items hitems hbetween) fun _ => fails_pure
  | .inSubquery tested operand negated, _, h, hsound => by
    obtain ⟨hself, hrest⟩ := List.cons_subset.mp h
    obtain ⟨htested, hoperand⟩ := List.append_subset.mp hrest
    cases operand with
    | subquery nested =>
      exact faults_bind (expression_builds tested False.elim hsound)
        (expression_faults tested htested hsound) fun _ _ hbetween =>
          fails_then (query_faults nested true (List.cons_subset.mp hoperand).2 hbetween)
            fun _ => fails_pure
    | _ =>
      exact fails_then (expression_faults tested htested hsound)
        fun _ => fails_throw (Fault.blamed_part rfl hself rfl)
  | .isNull tested _, _, h, hsound =>
    fails_then (expression_faults tested (List.cons_subset.mp h).2 hsound) fun _ => fails_pure
  | .isEmpty tested _, _, h, hsound =>
    fails_then (expression_faults tested (List.cons_subset.mp h).2 hsound) fun _ =>
      fails_then (pluralOperand_faults _ _) fun _ => fails_pure
  | .memberOf element collection _, _, h, hsound =>
    have ⟨helement, hcollection⟩ := List.append_subset.mp (List.cons_subset.mp h).2
    faults_bind (expression_builds element False.elim hsound)
      (expression_faults element helement hsound) fun _ between hbetween =>
        fails_bind (pluralOperand_ends (Q := fun _ after => between = after) fun _ _ _ => rfl)
          (pluralOperand_faults _ _) fun _ after hsame => by
            subst hsame
            exact fails_then (expression_faults collection hcollection hbetween)
              fun _ => fails_pure
  | .existence operand _, _, h, hsound => by
    obtain ⟨hself, hoperand⟩ := List.cons_subset.mp h
    cases operand with
    | subquery nested =>
      exact fails_then (query_faults nested true (List.cons_subset.mp hoperand).2 hsound)
        fun _ => fails_pure
    | _ => exact fails_throw (Fault.blamed_part rfl hself rfl)

theorem restriction_faults : ∀ (written : Option Phrase.Predicate) {before : Context},
    Phrase.restrictionParts written ⊆ parts → before.Sound schema False →
      Faults parts schema before (restriction written)
  | none, _, _, _ => fails_pure
  | some written, _, h, hsound => fails_then (predicate_faults written h hsound) fun _ => fails_pure

theorem selectExpression_faults : ∀ (written : Phrase.SelectExpression) {before : Context},
    written.parts ⊆ parts → before.Sound schema False →
      Faults parts schema before (selectExpression written)
  | .instantiation target items, before, h, hsound =>
    fails_bind (instantiationTarget_ends (Q := fun _ after => before = after) fun _ => rfl)
      (instantiationTarget_faults target items) fun _ after hsame => by
        subst hsame
        exact fails_then (arguments_fault items h hsound) fun _ => fails_pure
  | .object name, _, _, _ => fails_then (identificationVariable_faults name) fun _ => fails_pure
  | .expression written, _, h, hsound => expression_faults written h hsound

theorem arguments_fault : ∀ (written : List Phrase.SelectItem) {before : Context},
    Phrase.itemsParts written ⊆ parts → before.Sound schema False →
      Faults parts schema before (arguments written)
  | [], _, _, _ => fails_pure
  | .mk written _ :: rest, _, h, hsound =>
    have ⟨hfirst, hrest⟩ := List.append_subset.mp h
    faults_bind (selectExpression_builds written False.elim hsound)
      (selectExpression_faults written hfirst hsound)
      fun _ _ hbetween => fails_then (arguments_fault rest hrest hbetween) fun _ => fails_pure

theorem selections_fault : ∀ (written : List Phrase.SelectItem) (position : Nat)
    {before : Context}, Phrase.itemsParts written ⊆ parts → before.Sound schema False →
      Faults parts schema before (selections written position)
  | [], _, _, _, _ => fails_pure
  | .mk written alias? :: rest, position, before, h, hsound => by
    obtain ⟨hfirst, hrest⟩ := List.append_subset.mp h
    refine fails_stays (checkVariable_stays alias?) (checkVariable_faults alias?) fun _ => ?_
    refine faults_bind (selectExpression_builds written False.elim hsound)
      (selectExpression_faults written hfirst hsound) fun value between hbetween => ?_
    refine fails_bind (ends_bindSelection (Q := fun _ after => after.Sound schema False)
      fun trail hbind => (hbetween.selects hbind).sound) (bindSelection_faults position _)
      fun _ after hafter => ?_
    exact fails_then (selections_fault rest (position + 1) hrest hafter) fun _ => fails_pure

theorem selectClause_faults : ∀ (written : Option Phrase.SelectClause) {before : Context},
    Phrase.clauseParts written ⊆ parts → before.Sound schema False →
      Faults parts schema before (selectClause written)
  | none, _, _, _ => fails_then implicitSelection_faults fun _ => fails_pure
  | some (.mk _ items), _, h, hsound =>
    fails_then (selections_fault items 0 h hsound) fun _ => fails_pure

theorem join_faults : ∀ (written : Phrase.Join) {before : Context} {id : SpaceId},
    written.parts ⊆ parts → before.Sound schema False → before.levels.Last id →
      Faults parts schema before (join id written)
  | .cross written, before, id, _, _, hlast => by
    refine fails_stays (entity_stays _) (entity_faults _) fun entity => ?_
    refine fails_stays (checkVariable_stays _) (checkVariable_faults _) fun _ => ?_
    exact fails_then (crossJoin_faults hlast entity written.alias?) fun _ => fails_pure
  | .collection path alias?, _, _, _, hsound, hlast => memberJoin_faults hsound hlast path alias?
  | .qualified type fetch target alias? condition, before, id, h, hsound, hlast => by
    rw [join]
    refine fails_stays (checkVariable_stays _) (checkVariable_faults _) fun _ => ?_
    refine fails_stays (stays_comply _ _) (fails_comply (Fault.blamed rfl)) fun _ => ?_
    refine fails_bind (joinTarget_finds hsound hlast.level target False.elim type fetch)
      (joinTarget_faults hsound hlast target alias? type fetch) ?_
    rintro element first ⟨hfirst, -⟩
    cases condition with
    | none => exact fails_pure
    | some written =>
      have hpush : (first.pushResolver (.joinRestriction id)).Sound schema False :=
        (hfirst.sound.idle _ first.style? first.advisories).sound
      refine fails_bind (under_ends hfirst.sound fun context hcontext =>
        predicate_builds written False.elim hcontext)
        (fails_under (predicate_faults written h hpush)) ?_
      rintro restriction second ⟨hsecond, -⟩
      -- The space still has its root, so that the restriction finds it.
      refine fails_updateSpace fun fault hupdate => ?_
      obtain ⟨place, root, joins, hopened, rfl⟩ :=
        ((hlast.of_roots hfirst.roots).of_roots hsecond.roots).hasRoot
      rw [hopened, Levels.update_fill] at hupdate
      cases hupdate

theorem joins_fault : ∀ (written : List Phrase.Join) {before : Context} {id : SpaceId},
    Phrase.joinsParts written ⊆ parts → before.Sound schema False → before.levels.Last id →
      Faults parts schema before (joins id written)
  | [], _, _, _, _, _ => fails_pure
  | first :: rest, _, _, h, hsound, hlast =>
    have ⟨hfirst, hrest⟩ := List.append_subset.mp h
    have hfails := join_faults first hfirst hsound hlast
    fails_bind (join_ends first False.elim hsound hlast.level) hfails fun _ _ hadvances =>
      joins_fault rest hrest hadvances.sound (hlast.of_roots hadvances.roots)

theorem space_faults : ∀ (written : Phrase.Space) {before : Context},
    written.parts ⊆ parts → before.Sound schema False → before.levels.Rooted →
      Faults parts schema before (space written)
  | .mk written hanging, before, h, hsound, hrooted => by
    refine fails_bind (openSpace_sound hsound) (openSpace_faults hrooted) ?_
    rintro id first ⟨hfirst, opened, below, -, hopened, rfl⟩
    refine fails_bind (openedRoot_ends hopened hfirst written)
      (openedRoot_faults hopened written) ?_
    rintro element second ⟨hsecond, hfilled⟩
    exact joins_fault hanging h hsecond ⟨opened, element, [], below, hfilled, rfl⟩

theorem spaces_fault : ∀ (written : List Phrase.Space) {before : Context},
    Phrase.spacesParts written ⊆ parts → before.Sound schema False → before.levels.Rooted →
      Faults parts schema before (spaces written)
  | [], _, _, _, _ => fails_pure
  | first :: rest, _, h, hsound, hrooted =>
    have ⟨hfirst, hrest⟩ := List.append_subset.mp h
    fails_bind (space_rooted hsound hrooted first) (space_faults first hfirst hsound hrooted)
      fun _ _ ⟨hbetween, hnext⟩ => spaces_fault rest hrest hbetween hnext

theorem sortItem_faults : ∀ (written : Phrase.SortItem) {before : Context},
    written.parts ⊆ parts → before.Sound schema False →
      Faults parts schema before (sortItem written)
  | .mk written collation ordering, before, h, hsound => by
    rw [sortItem]
    have hfinish : ∀ (context : Context) (value : Expression),
        Faults parts schema context (do
          let order ← ofExcept (sortOrder ordering)
          return Resolved.SortItem.mk value collation order) := fun context value =>
      fails_then (sortOrder_faults ordering) fun _ => fails_pure
    refine fails_get_bind ?_
    dsimp only
    split
    · exact hfinish before _
    · exact fails_then (expression_faults written h hsound) fun value {after} => hfinish after value

theorem sortItems_fault : ∀ (written : List Phrase.SortItem) {before : Context},
    Phrase.sortItemsParts written ⊆ parts → before.Sound schema False →
      Faults parts schema before (sortItems written)
  | [], _, _, _ => fails_pure
  | first :: rest, _, h, hsound =>
    have ⟨hfirst, hrest⟩ := List.append_subset.mp h
    fails_bind (sortItem_builds first False.elim hsound) (sortItem_faults first hfirst hsound)
      fun _ _ ⟨hadvances, _⟩ =>
        fails_then (sortItems_fault rest hrest hadvances.sound) fun _ => fails_pure

theorem order_faults : ∀ (written : Option (List Phrase.SortItem)) {before : Context},
    Phrase.orderParts written ⊆ parts → before.Sound schema False →
      Faults parts schema before (order written)
  | none, _, _, _ => fails_pure
  | some written, _, h, hsound => fails_then (sortItems_fault written h hsound) fun _ => fails_pure

theorem query_faults : ∀ (written : Phrase.Query) (nested : Bool) {before : Context},
    written.parts ⊆ parts → before.Sound schema False →
      Faults parts schema before (query written nested)
  | .mk select written condition ordering limit offset, nested, before, h, hsound => by
    obtain ⟨h, hoffset⟩ := List.append_subset.mp h
    obtain ⟨h, hlimit⟩ := List.append_subset.mp h
    obtain ⟨h, hordering⟩ := List.append_subset.mp h
    obtain ⟨h, hcondition⟩ := List.append_subset.mp h
    obtain ⟨hselect, hspaces⟩ := List.append_subset.mp h
    refine fails_stays (stays_comply _ _) (fails_comply (Fault.blamed rfl)) fun _ => ?_
    refine fails_stays (stays_comply _ _) (fails_comply (Fault.blamed rfl)) fun _ => ?_
    refine fails_then ?_ fun _ => fails_pure
    have hempty := Levels.rooted_empty before.levels
    refine level_faults (ends_fails_bind (spaces_rooted hsound.openLevel hempty written)
      (spaces_fault written hspaces hsound.openLevel hempty) ?_)
    rintro _ first ⟨hfirst, clause, below, hroots⟩
    refine ends_fails_bind (selectClause_builds select False.elim hfirst)
      (selectClause_faults select hselect hfirst) ?_
    rintro ⟨distinct, selections⟩ second ⟨hsecond, hsame, -, -⟩
    rw [← hsame] at hroots
    refine ends_fails_bind (restriction_builds condition False.elim hsecond.sound)
      (restriction_faults condition hcondition hsecond.sound) ?_
    rintro restriction third ⟨hthird, -⟩
    refine ends_fails_bind (order_builds ordering False.elim hthird.sound)
      (order_faults ordering hordering hthird.sound) ?_
    rintro order fourth ⟨hfourth, -, -⟩
    refine ends_fails_bind (optional_builds limit False.elim hfourth.sound)
      (optional_faults limit hlimit hfourth.sound) ?_
    rintro limit fifth ⟨hfifth, -⟩
    refine ends_fails_bind (optional_builds offset False.elim hfifth.sound)
      (optional_faults offset hoffset hfifth.sound) ?_
    rintro offset sixth ⟨hsixth, -⟩
    refine ⟨ends_pure ⟨clause, below, ?_⟩, fails_pure⟩
    rw [hsixth.roots, hfifth.roots, hfourth.roots, hthird.roots, hroots]

end

end EntityQuery.Interpretation.Step

import EntityQuery.Proofs.BuiltStatements
import EntityQuery.Proofs.EmbeddedStates

/-!
# Where nested queries begin

While a statement is interpreted, the queries that are nested in it are begun one after the other,
each in the state that the steps before it have left. A phrase begins a query if one of its parts
does, after the steps in front of that part. Every such state is sound, whether or not the statement
has a meaning in the end.

* `Begins.query`, `Begins.statement`: a phrase begins a nested query in a state.
* `Begins.statement_sound`: the state is sound.
* `Context.Sound.numbered`: a sound state holds no number that it did not draw.
-/

namespace EntityQuery.Interpretation

/-- The step ends, and what follows it holds of its value and of the state that it leaves. -/
def Leads (schema : Schema) {α : Type} (first : Step α) (later : α → Context → Prop)
    (before : Context) : Prop :=
  ∃ value between, first.run' schema before = (.ok value, between) ∧ later value between

/-- Something happens in the step, or in what follows it. -/
def Along (schema : Schema) {α : Type} (first : Step α) (here : Context → Prop)
    (later : α → Context → Prop) (before : Context) : Prop :=
  here before ∨ Leads schema first later before

namespace Begins

section

variable (schema : Schema) (sought : Phrase.Query) (start : Context)

mutual

def expression : Phrase.Expression → Context → Prop
  | .indexed _ index _ => expression index
  | .arithmetic _ operands => fun before => operands.length = 2 ∧ expressions operands before
  | .concatenation operands => fun before => operands.length = 2 ∧ expressions operands before
  | .unary _ operand => expression operand
  | .grouped inner => expression inner
  | .call name generic _ _ arguments =>
    match if generic then none else CollectionFunction.ofName? name with
    | some function => fun before => arguments.length = 1 ∧ function ≠ .index
      ∧ Leads schema (Step.announceCollectionFunction function) (fun _ => expressions arguments)
          before
    | none =>
      Leads schema
        (Step.announceCall name generic (!generic && Catalogue.isStandardFunction name))
        fun _ => expressions arguments
  | .simpleCase operand whens otherwise =>
    Along schema (Step.expression operand) (expression operand) fun _ =>
      Along schema (Step.simpleWhens whens) (simpleWhens whens) fun _ => optional otherwise
  | .searchedCase whens otherwise =>
    Along schema (Step.searchedWhens whens) (searchedWhens whens) fun _ => optional otherwise
  | .subquery nested => query nested true
  | .literal _ => fun _ => False
  | .parameter _ => fun _ => False
  | .path _ => fun _ => False
  | .treated _ _ _ => fun _ => False
  | .mapFunction _ _ => fun _ => False

def expressions : List Phrase.Expression → Context → Prop
  | [] => fun _ => False
  | first :: rest =>
    Along schema (Step.expression first) (expression first) fun _ => expressions rest

def optional : Option Phrase.Expression → Context → Prop
  | none => fun _ => False
  | some written => expression written

def simpleWhen : Phrase.SimpleWhen → Context → Prop
  | .mk value result =>
    Along schema (Step.expression value) (expression value) fun _ => expression result

def simpleWhens : List Phrase.SimpleWhen → Context → Prop
  | [] => fun _ => False
  | first :: rest =>
    Along schema (Step.simpleWhen first) (simpleWhen first) fun _ => simpleWhens rest

def searchedWhen : Phrase.SearchedWhen → Context → Prop
  | .mk condition result =>
    Along schema (Step.predicate condition) (predicate condition) fun _ => expression result

def searchedWhens : List Phrase.SearchedWhen → Context → Prop
  | [] => fun _ => False
  | first :: rest =>
    Along schema (Step.searchedWhen first) (searchedWhen first) fun _ => searchedWhens rest

def predicate : Phrase.Predicate → Context → Prop
  | .and left right =>
    Along schema (Step.predicate left) (predicate left) fun _ => predicate right
  | .or left right =>
    Along schema (Step.predicate left) (predicate left) fun _ => predicate right
  | .not inner => predicate inner
  | .grouped inner => predicate inner
  | .comparison _ left right =>
    Along schema (Step.expression left) (expression left) fun _ => expression right
  | .between tested lower upper _ =>
    Along schema (Step.expression tested) (expression tested) fun _ =>
      Along schema (Step.expression lower) (expression lower) fun _ => expression upper
  | .like matched pattern escape _ =>
    Along schema (Step.expression matched) (expression matched) fun _ =>
      Along schema (Step.expression pattern) (expression pattern) fun _ => optional escape
  | .inList tested items _ =>
    Along schema (Step.expression tested) (expression tested) fun _ => expressions items
  | .inSubquery tested (.subquery nested) _ =>
    Along schema (Step.expression tested) (expression tested) fun _ => query nested true
  | .inSubquery tested _ _ => expression tested
  | .isNull tested _ => expression tested
  | .isEmpty collection _ => expression collection
  | .memberOf element collection _ =>
    Along schema
      (do Step.pluralOperand .memberOf (← Step.expression element))
      (expression element) fun _ => expression collection
  | .existence (.subquery nested) _ => query nested true
  | .existence _ _ => fun _ => False

def restriction : Option Phrase.Predicate → Context → Prop
  | none => fun _ => False
  | some written => predicate written

def selectExpression : Phrase.SelectExpression → Context → Prop
  | .instantiation target items =>
    Leads schema (Step.instantiationTarget target items) fun _ => arguments items
  | .object _ => fun _ => False
  | .expression written => expression written

def arguments : List Phrase.SelectItem → Context → Prop
  | [] => fun _ => False
  | .mk written _ :: rest =>
    Along schema (Step.selectExpression written) (selectExpression written) fun _ => arguments rest

def selections : List Phrase.SelectItem → Nat → Context → Prop
  | [], _ => fun _ => False
  | .mk written alias? :: rest, position =>
    Leads schema (Step.checkVariable alias?) fun _ =>
      Along schema (Step.selectExpression written) (selectExpression written) fun value =>
        Leads schema (Step.bindSelection position (.mk value alias?)) fun _ =>
          selections rest (position + 1)

def selectClause : Option Phrase.SelectClause → Context → Prop
  | none => fun _ => False
  | some (.mk _ items) => selections items 0

/-- The restriction of a join is interpreted under a resolver of its own. -/
def join (space : SpaceId) : Phrase.Join → Context → Prop
  | .cross _ => fun _ => False
  | .collection _ _ => fun _ => False
  | .qualified type fetch target alias? condition =>
    Leads schema
      (do
        Step.checkVariable alias?
        Step.comply (fetch && alias?.isSome) (.aliasedFetchJoin target.path)
        Step.joinTarget space target alias? type fetch)
      fun _ between => restriction condition (between.pushResolver (.joinRestriction space))

def joins (space : SpaceId) : List Phrase.Join → Context → Prop
  | [] => fun _ => False
  | first :: rest =>
    Along schema (Step.join space first) (join space first) fun _ => joins space rest

def space : Phrase.Space → Context → Prop
  | .mk written hanging =>
    Leads schema Step.openSpace fun id => Leads schema (Step.root id written) fun _ =>
      joins id hanging

def spaces : List Phrase.Space → Context → Prop
  | [] => fun _ => False
  | first :: rest => Along schema (Step.space first) (space first) fun _ => spaces rest

/-- A result variable is not interpreted again. -/
def sortItem : Phrase.SortItem → Context → Prop
  | .mk written _ _ => fun before =>
    Step.resultVariable? before.trail written = none ∧ expression written before

def sortItems : List Phrase.SortItem → Context → Prop
  | [] => fun _ => False
  | first :: rest => Along schema (Step.sortItem first) (sortItem first) fun _ => sortItems rest

def order : Option (List Phrase.SortItem) → Context → Prop
  | none => fun _ => False
  | some items => sortItems items

/-- A nested query is begun before its level is opened. -/
def query : Phrase.Query → Bool → Context → Prop
  | .mk select written condition ordering limit offset, nested => fun before =>
    (nested = true ∧ .mk select written condition ordering limit offset = sought
        ∧ before = start)
      ∨ Leads schema
        (do
          Step.comply (nested && ordering.isSome) .subqueryOrderBy
          Step.comply (limit.isSome || offset.isSome) .limitOffset)
        (fun _ between =>
          Along schema (Step.spaces written) (spaces written) (fun _ =>
            Along schema (Step.selectClause select) (selectClause select) fun _ =>
              Along schema (Step.restriction condition) (restriction condition) fun _ =>
                Along schema (Step.order ordering) (order ordering) fun _ =>
                  Along schema (Step.optional limit) (optional limit) fun _ => optional offset)
            between.openLevel)
        before

end

/-- The value of one of the assignments begins it, after the assignments before. -/
def assignments (written : List Phrase.Assignment) (before : Context) : Prop :=
  ∃ earlier chosen later, written = earlier ++ chosen :: later
    ∧ Leads schema (earlier.mapM Step.assignment)
      (fun _ between => Leads schema (Step.stateField chosen.path)
        (fun _ => expression schema sought start chosen.value) (between.pushResolver .bulk))
      before

def bulkRestriction (condition : Option Phrase.Predicate) (before : Context) : Prop :=
  restriction schema sought start condition (before.pushResolver .bulk)

/-- A statement is interpreted from the empty state on. -/
def statement : Phrase.Statement → Prop
  | .select written => query schema sought start written false .empty
  | .update target written condition =>
    Leads schema (Step.bulkTarget target)
      (fun _ => Along schema (written.mapM Step.assignment)
        (assignments schema sought start written)
        fun _ => bulkRestriction schema sought start condition)
      Context.empty.openLevel
  | .delete target condition =>
    Leads schema (Step.bulkTarget target)
      (fun _ => bulkRestriction schema sought start condition)
      Context.empty.openLevel
  | .insert target fields written =>
    Leads schema
      (Step.onLevel do
        let element ← Step.bulkTarget ⟨target, none⟩
        Step.under .bulk (fields.mapM fun field =>
          Step.stateField ⟨element.aliasName :: field.parts⟩))
      (fun _ => query schema sought start written false)
      .empty

end

/-! ## Soundness -/

open Step

variable {schema : Schema} {sought : Phrase.Query} {start before : Context}

/-- A state that is met after a step is sound if what the step leaves leads to sound states only. -/
theorem leads_sound {α : Type} {first : Step α} {later : α → Context → Prop}
    {P : α → Context → Prop} (hfirst : Ends schema before first P)
    (hlater : ∀ value between, P value between → later value between → start.Sound schema False)
    (h : Leads schema first later before) : start.Sound schema False := by
  obtain ⟨value, between, hrun, hnext⟩ := h
  exact hlater value between (hfirst value between hrun) hnext

theorem along_sound {α : Type} {first : Step α} {here : Context → Prop}
    {later : α → Context → Prop} {P : α → Context → Prop}
    (hhere : here before → start.Sound schema False) (hfirst : Ends schema before first P)
    (hlater : ∀ value between, P value between → later value between → start.Sound schema False)
    (h : Along schema first here later before) : start.Sound schema False :=
  h.elim hhere (leads_sound hfirst hlater)

/-- A step that builds something leaves a sound state. -/
theorem soundly {α : Type} {step : Step α} {bound : α → List FromElement}
    {meets : Resolved.Rules → List FromElement → α → Prop}
    (h : Builds bound meets schema False before step) :
    Ends schema before step fun _ after => after.Sound schema False :=
  ends_mono h fun _ _ h => h.1.sound

theorem expression_leaves (hsound : before.Sound schema False) (written : Phrase.Expression) :
    Ends schema before (Step.expression written) fun _ after => after.Sound schema False :=
  soundly (expression_builds written False.elim hsound)

theorem predicate_leaves (hsound : before.Sound schema False) (written : Phrase.Predicate) :
    Ends schema before (Step.predicate written) fun _ after => after.Sound schema False :=
  soundly (predicate_builds written False.elim hsound)

/-- Another resolver leaves the state sound. -/
theorem pushed (hsound : before.Sound schema False) (resolver : Resolver) :
    (before.pushResolver resolver).Sound schema False :=
  (hsound.idle (resolver :: before.resolvers) before.style? before.advisories).sound

theorem pluralOperand_sound {form : PluralForm} {written : Phrase.Expression}
    (hsound : before.Sound schema False) :
    Ends schema before (do pluralOperand form (← Step.expression written)) fun _ after =>
      after.Sound schema False :=
  ends_bind (expression_leaves hsound written) fun _ _ hbetween =>
    pluralOperand_ends fun _ _ _ => hbetween

mutual

theorem expression_sound : ∀ (written : Phrase.Expression) {before : Context},
    before.Sound schema False → expression schema sought start written before →
      start.Sound schema False
  | .indexed _ index _, _, hsound, h => expression_sound index hsound h
  | .arithmetic _ operands, _, hsound, h => expressions_sound operands hsound h.2
  | .concatenation operands, _, hsound, h => expressions_sound operands hsound h.2
  | .unary _ operand, _, hsound, h => expression_sound operand hsound h
  | .grouped inner, _, hsound, h => expression_sound inner hsound h
  | .call name generic distinct star arguments, before, hsound, h => by
    rw [expression] at h
    cases hfunction : if generic then none else CollectionFunction.ofName? name with
    | some function =>
      rw [hfunction] at h
      exact leads_sound (announceCollectionFunction_ends hsound function)
        (fun _ _ hbetween => expressions_sound arguments hbetween.sound) h.2.2
    | none =>
      rw [hfunction] at h
      exact leads_sound (announceCall_ends hsound _ _ _)
        (fun _ _ hbetween => expressions_sound arguments hbetween.sound) h
  | .simpleCase operand whens otherwise, _, hsound, h =>
    along_sound (expression_sound operand hsound) (expression_leaves hsound operand)
      (fun _ _ hbetween => along_sound (simpleWhens_sound whens hbetween)
        (soundly (simpleWhens_build whens False.elim hbetween))
        fun _ _ hlater => optional_sound otherwise hlater) h
  | .searchedCase whens otherwise, _, hsound, h =>
    along_sound (searchedWhens_sound whens hsound)
      (soundly (searchedWhens_build whens False.elim hsound))
      (fun _ _ hbetween => optional_sound otherwise hbetween) h
  | .subquery nested, _, hsound, h => query_sound nested true hsound h
  | .literal _, _, _, h => h.elim
  | .parameter _, _, _, h => h.elim
  | .path _, _, _, h => h.elim
  | .treated _ _ _, _, _, h => h.elim
  | .mapFunction _ _, _, _, h => h.elim

theorem expressions_sound : ∀ (written : List Phrase.Expression) {before : Context},
    before.Sound schema False → expressions schema sought start written before →
      start.Sound schema False
  | [], _, _, h => h.elim
  | first :: rest, _, hsound, h =>
    along_sound (expression_sound first hsound) (expression_leaves hsound first)
      (fun _ _ hbetween => expressions_sound rest hbetween) h

theorem optional_sound : ∀ (written : Option Phrase.Expression) {before : Context},
    before.Sound schema False → optional schema sought start written before →
      start.Sound schema False
  | none, _, _, h => h.elim
  | some written, _, hsound, h => expression_sound written hsound h

theorem simpleWhen_sound : ∀ (written : Phrase.SimpleWhen) {before : Context},
    before.Sound schema False → simpleWhen schema sought start written before →
      start.Sound schema False
  | .mk value result, _, hsound, h =>
    along_sound (expression_sound value hsound) (expression_leaves hsound value)
      (fun _ _ hbetween => expression_sound result hbetween) h

theorem simpleWhens_sound : ∀ (written : List Phrase.SimpleWhen) {before : Context},
    before.Sound schema False → simpleWhens schema sought start written before →
      start.Sound schema False
  | [], _, _, h => h.elim
  | first :: rest, _, hsound, h =>
    along_sound (simpleWhen_sound first hsound)
      (soundly (simpleWhen_builds first False.elim hsound))
      (fun _ _ hbetween => simpleWhens_sound rest hbetween) h

theorem searchedWhen_sound : ∀ (written : Phrase.SearchedWhen) {before : Context},
    before.Sound schema False → searchedWhen schema sought start written before →
      start.Sound schema False
  | .mk condition result, _, hsound, h =>
    along_sound (predicate_sound condition hsound) (predicate_leaves hsound condition)
      (fun _ _ hbetween => expression_sound result hbetween) h

theorem searchedWhens_sound : ∀ (written : List Phrase.SearchedWhen) {before : Context},
    before.Sound schema False → searchedWhens schema sought start written before →
      start.Sound schema False
  | [], _, _, h => h.elim
  | first :: rest, _, hsound, h =>
    along_sound (searchedWhen_sound first hsound)
      (soundly (searchedWhen_builds first False.elim hsound))
      (fun _ _ hbetween => searchedWhens_sound rest hbetween) h

theorem predicate_sound : ∀ (written : Phrase.Predicate) {before : Context},
    before.Sound schema False → predicate schema sought start written before →
      start.Sound schema False
  | .and left right, _, hsound, h =>
    along_sound (predicate_sound left hsound) (predicate_leaves hsound left)
      (fun _ _ hbetween => predicate_sound right hbetween) h
  | .or left right, _, hsound, h =>
    along_sound (predicate_sound left hsound) (predicate_leaves hsound left)
      (fun _ _ hbetween => predicate_sound right hbetween) h
  | .not inner, _, hsound, h => predicate_sound inner hsound h
  | .grouped inner, _, hsound, h => predicate_sound inner hsound h
  | .comparison _ left right, _, hsound, h =>
    along_sound (expression_sound left hsound) (expression_leaves hsound left)
      (fun _ _ hbetween => expression_sound right hbetween) h
  | .between tested lower upper _, _, hsound, h =>
    along_sound (expression_sound tested hsound) (expression_leaves hsound tested)
      (fun _ _ hbetween => along_sound (expression_sound lower hbetween)
        (expression_leaves hbetween lower)
        fun _ _ hlater => expression_sound upper hlater) h
  | .like matched pattern escape _, _, hsound, h =>
    along_sound (expression_sound matched hsound) (expression_leaves hsound matched)
      (fun _ _ hbetween => along_sound (expression_sound pattern hbetween)
        (expression_leaves hbetween pattern)
        fun _ _ hlater => optional_sound escape hlater) h
  | .inList tested items _, _, hsound, h =>
    along_sound (expression_sound tested hsound) (expression_leaves hsound tested)
      (fun _ _ hbetween => expressions_sound items hbetween) h
  | .inSubquery tested operand _, _, hsound, h => by
    cases operand with
    | subquery nested =>
      exact along_sound (expression_sound tested hsound) (expression_leaves hsound tested)
        (fun _ _ hbetween => query_sound nested true hbetween) h
    | _ => exact expression_sound tested hsound h
  | .isNull tested _, _, hsound, h => expression_sound tested hsound h
  | .isEmpty collection _, _, hsound, h => expression_sound collection hsound h
  | .memberOf element collection _, _, hsound, h =>
    along_sound (expression_sound element hsound) (pluralOperand_sound hsound)
      (fun _ _ hbetween => expression_sound collection hbetween) h
  | .existence operand _, _, hsound, h => by
    cases operand with
    | subquery nested => exact query_sound nested true hsound h
    | _ => exact h.elim

theorem restriction_sound : ∀ (written : Option Phrase.Predicate) {before : Context},
    before.Sound schema False → restriction schema sought start written before →
      start.Sound schema False
  | none, _, _, h => h.elim
  | some written, _, hsound, h => predicate_sound written hsound h

theorem selectExpression_sound : ∀ (written : Phrase.SelectExpression) {before : Context},
    before.Sound schema False → selectExpression schema sought start written before →
      start.Sound schema False
  | .instantiation _ items, before, hsound, h =>
    leads_sound (instantiationTarget_ends (Q := fun _ after => before = after) fun _ => rfl)
      (fun _ _ hsame => arguments_sound items (hsame ▸ hsound)) h
  | .object _, _, _, h => h.elim
  | .expression written, _, hsound, h => expression_sound written hsound h

theorem arguments_sound : ∀ (written : List Phrase.SelectItem) {before : Context},
    before.Sound schema False → arguments schema sought start written before →
      start.Sound schema False
  | [], _, _, h => h.elim
  | .mk written _ :: rest, _, hsound, h =>
    along_sound (selectExpression_sound written hsound)
      (soundly (selectExpression_builds written False.elim hsound))
      (fun _ _ hbetween => arguments_sound rest hbetween) h

theorem selections_sound : ∀ (written : List Phrase.SelectItem) (position : Nat)
    {before : Context}, before.Sound schema False →
      selections schema sought start written position before → start.Sound schema False
  | [], _, _, _, h => h.elim
  | .mk written alias? :: rest, position, before, hsound, h => by
    refine leads_sound (ends_checkVariable (Q := fun _ after => before = after) rfl) ?_ h
    rintro _ _ rfl h
    refine along_sound (selectExpression_sound written hsound)
      (soundly (selectExpression_builds written False.elim hsound)) ?_ h
    intro value between hbetween h
    refine leads_sound (ends_bindSelection (Q := fun _ after => after.Sound schema False)
      fun trail hbind => (hbetween.selects hbind).sound) ?_ h
    exact fun _ _ hlater => selections_sound rest (position + 1) hlater

theorem selectClause_sound : ∀ (written : Option Phrase.SelectClause) {before : Context},
    before.Sound schema False → selectClause schema sought start written before →
      start.Sound schema False
  | none, _, _, h => h.elim
  | some (.mk _ items), _, hsound, h => selections_sound items 0 hsound h

theorem join_sound : ∀ (written : Phrase.Join) {before : Context} {id : SpaceId},
    before.Sound schema False → id.level + 1 = before.levels.length →
      join schema sought start id written before → start.Sound schema False
  | .cross _, _, _, _, _, h => h.elim
  | .collection _ _, _, _, _, _, h => h.elim
  | .qualified type fetch target alias? condition, before, id, hsound, hid, h => by
    refine leads_sound (P := fun _ after => after.Sound schema False) ?_ ?_ h
    · refine ends_bind (ends_checkVariable (Q := fun _ after => before = after) rfl) ?_
      rintro _ first rfl
      refine ends_bind (ends_comply (Q := fun _ after => before = after) rfl) ?_
      rintro _ first rfl
      exact ends_mono (joinTarget_finds hsound hid target False.elim type fetch)
        fun _ _ h => h.1.sound
    · exact fun _ _ hbetween => restriction_sound condition (pushed hbetween _)

theorem joins_sound : ∀ (written : List Phrase.Join) {before : Context} {id : SpaceId},
    before.Sound schema False → id.level + 1 = before.levels.length →
      joins schema sought start id written before → start.Sound schema False
  | [], _, _, _, _, h => h.elim
  | first :: rest, _, _, hsound, hid, h =>
    along_sound (join_sound first hsound hid) (join_ends first False.elim hsound hid)
      (fun _ _ hadvances => joins_sound rest hadvances.sound
        (hadvances.grow.length_eq ▸ hid)) h

theorem space_sound : ∀ (written : Phrase.Space) {before : Context},
    before.Sound schema False → space schema sought start written before →
      start.Sound schema False
  | .mk written hanging, before, hsound, h => by
    refine leads_sound (ends_openSpace (Q := fun id after => after.Sound schema False
      ∧ id.level + 1 = after.levels.length) ?_) ?_ h
    · intro id levels hopen
      obtain ⟨hextends, spaces, below, -, rfl, rfl⟩ := hsound.opensSpace hopen
      exact ⟨hextends.sound, rfl⟩
    rintro id opened ⟨hopened, hid⟩ h
    refine leads_sound (root_ends hopened hid False.elim) ?_ h
    rintro _ rooted ⟨hrooted, -⟩
    exact joins_sound hanging hrooted.sound (hrooted.grow.length_eq ▸ hid)

theorem spaces_sound : ∀ (written : List Phrase.Space) {before : Context},
    before.Sound schema False → spaces schema sought start written before →
      start.Sound schema False
  | [], _, _, h => h.elim
  | first :: rest, _, hsound, h =>
    along_sound (space_sound first hsound) (space_ends first False.elim hsound)
      (fun _ _ hextends => spaces_sound rest hextends.1.sound) h

theorem sortItem_sound : ∀ (written : Phrase.SortItem) {before : Context},
    before.Sound schema False → sortItem schema sought start written before →
      start.Sound schema False
  | .mk written _ _, _, hsound, h => expression_sound written hsound h.2

theorem sortItems_sound : ∀ (written : List Phrase.SortItem) {before : Context},
    before.Sound schema False → sortItems schema sought start written before →
      start.Sound schema False
  | [], _, _, h => h.elim
  | first :: rest, _, hsound, h =>
    along_sound (sortItem_sound first hsound) (sortItem_builds first False.elim hsound)
      (fun _ _ hbetween => sortItems_sound rest hbetween.1.sound) h

theorem order_sound : ∀ (written : Option (List Phrase.SortItem)) {before : Context},
    before.Sound schema False → order schema sought start written before →
      start.Sound schema False
  | none, _, _, h => h.elim
  | some items, _, hsound, h => sortItems_sound items hsound h

theorem query_sound : ∀ (written : Phrase.Query) (nested : Bool) {before : Context},
    before.Sound schema False → query schema sought start written nested before →
      start.Sound schema False
  | .mk select written condition ordering limit offset, nested, before, hsound, h => by
    rcases h with ⟨-, -, rfl⟩ | h
    · exact hsound
    refine leads_sound (P := fun _ after => before = after) ?_ ?_ h
    · refine ends_bind (ends_comply (Q := fun _ after => before = after) rfl) ?_
      rintro _ between rfl
      exact ends_comply rfl
    rintro _ _ rfl h
    refine along_sound (spaces_sound written hsound.openLevel)
      (spaces_end written False.elim hsound.openLevel) ?_ h
    rintro _ filled ⟨hfilled, -⟩ h
    refine along_sound (selectClause_sound select hfilled.sound)
      (selectClause_builds select False.elim hfilled.sound) ?_ h
    rintro _ chosen ⟨hchosen, -⟩ h
    refine along_sound (restriction_sound condition hchosen.sound)
      (restriction_builds condition False.elim hchosen.sound) ?_ h
    rintro _ restricted ⟨hrestricted, -⟩ h
    refine along_sound (order_sound ordering hrestricted.sound)
      (order_builds ordering False.elim hrestricted.sound) ?_ h
    rintro _ ordered ⟨hordered, -⟩ h
    refine along_sound (optional_sound limit hordered.sound)
      (optional_builds limit False.elim hordered.sound) ?_ h
    rintro _ limited ⟨hlimited, -⟩ h
    exact optional_sound offset hlimited.sound h

end

/-- The assignments in front of one. -/
theorem earlier_sound (written : List Phrase.Assignment) (hsound : before.Sound schema False) :
    Ends schema before (written.mapM assignment) fun _ after => after.Sound schema False :=
  ends_mapM (fun _ context => context.Sound schema False) hsound fun _ _ _ _ hcontext =>
    soundly (assignment_builds False.elim hcontext)

theorem assignments_sound {written : List Phrase.Assignment} (hsound : before.Sound schema False)
    (h : assignments schema sought start written before) : start.Sound schema False := by
  obtain ⟨earlier, chosen, later, -, h⟩ := h
  refine leads_sound (earlier_sound earlier hsound) ?_ h
  intro _ between hbetween h
  exact leads_sound (soundly (stateField_builds (pushed hbetween _) _))
    (fun _ _ hlater => expression_sound chosen.value hlater) h

theorem statement_sound {written : Phrase.Statement} (h : statement schema sought start written) :
    start.Sound schema False := by
  have hempty : Context.empty.Sound schema False := .empty schema False
  cases written with
  | select query => exact query_sound query false hempty h
  | update _ written condition =>
    refine leads_sound (bulkTarget_extends False.elim hempty.openLevel) ?_ h
    intro _ filled hfilled h
    refine along_sound (assignments_sound hfilled.sound) (earlier_sound written hfilled.sound) ?_ h
    exact fun _ assigned hassigned h => restriction_sound condition (pushed hassigned _) h
  | delete _ condition =>
    exact leads_sound (bulkTarget_extends False.elim hempty.openLevel)
      (fun _ _ hfilled h => restriction_sound condition (pushed hfilled.sound _) h) h
  | insert _ fields query =>
    have hnone : False → Phrase.PlainVariable none := False.elim
    exact leads_sound (bulk_ends hnone hempty (insertFields_build fields))
      (fun _ _ hbetween h => query_sound query false hbetween.1.sound h) h

end Begins

/-- A sound state holds no number that it did not draw. -/
theorem Context.Sound.numbered {schema : Schema} {clean : Prop} {context : Context}
    (h : context.Sound schema clean) : context.Numbered where
  registered := h.fresh
  known := fun known hknown => (h.known known hknown).1
  marked := h.marked
  placed := fun spaces hspaces space hspace element helement => by
    have hplaced : element ∈ context.levels.elements :=
      List.mem_flatMap.mpr ⟨spaces, hspaces, List.mem_flatMap.mpr ⟨space, hspace, helement⟩⟩
    have hmet := Levels.Fit.element (Resolved.builtRules_implies fun _ h => h) h.fit
    exact h.fresh element (hmet element hplaced).1

end EntityQuery.Interpretation

import EntityQuery.Proofs.MovedStatements
import EntityQuery.Proofs.PlainPhrase

/-!
# Result variables under the names of elements

A result variable may have the name of an element of its from clause if it has the type of that
element. This is looked at when the result variable is bound, once the from clause has been read.
The elements that paths add later have made-up variables, so that nothing has to be looked at again
when the query is left.

* `Trail.Separate`: the elements of the current scope have variables of their own.
* `Context.Ensues`, `ensuingMotion`: no element under a written variable joins a from clause that
  has been read, and the current scope stays separate.
* `Context.Sound.suits`: a result variable that is bound suits the elements of its from clause.
* `Context.Selects`: what the selections of a query are like when they have been bound.
-/

namespace EntityQuery.Interpretation

/-! ## The current scope -/

/-- No two elements of the current scope share a variable. -/
def Trail.Separate (trail : Trail) : Prop :=
  ((trail.frames.headD []).map FromElement.aliasName).Nodup

namespace Trail

variable {trail after : Trail}

theorem Separate.bind {element : FromElement} (h : trail.Separate)
    (hbind : trail.bind element = .ok after) : after.Separate := by
  obtain ⟨rfl, hfree⟩ := bind_ok hbind
  rw [Separate, frames_element, List.headD_cons, List.map_append, List.nodup_append]
  refine ⟨h, List.pairwise_singleton _ _, fun name hname other hother heq => ?_⟩
  obtain ⟨bound, hbound, rfl⟩ := List.mem_map.mp hname
  exact hfree bound hbound (heq.trans (List.mem_singleton.mp hother))

/-- In a separate scope, an element is what its variable stands for. -/
theorem Separate.find? {element : FromElement} (h : trail.Separate)
    (helement : element ∈ trail.frames.headD []) :
    find? element.aliasName (current trail) = some element := by
  rw [Separate, frames_head] at h
  rw [frames_head, List.mem_reverse] at helement
  obtain ⟨found, hfound⟩ := Option.isSome_iff_exists.mp (List.find?_isSome
    (p := fun other : FromElement => other.aliasName == element.aliasName).mpr
      ⟨element, helement, beq_self_eq_true element.aliasName⟩)
  have hname := List.find?_some hfound
  have hname : found.aliasName = element.aliasName := eq_of_beq hname
  have hsame : found = element := List.inj_on_of_nodup_map h
    (List.mem_reverse.mpr (List.mem_of_find?_eq_some hfound)) (List.mem_reverse.mpr helement) hname
  rw [hsame] at hfound
  exact hfound

/-- A result variable is bound where none has its name, and where an element has its name, it has
the type of the element. -/
theorem bindSelection_some {position : Nat} {selection : Resolved.Selection} {aliasName : String}
    (h : trail.bindSelection position selection = .ok after)
    (halias : selection.alias? = some aliasName) :
    (∀ result ∈ trail.results, result.aliasName ≠ aliasName)
      ∧ ∀ element, find? aliasName (current trail) = some element →
        selection.expression.type? = some element.type := by
  simp only [bindSelection, halias] at h
  split at h
  · cases h
  rename_i hnone
  refine ⟨fun result hresult hname => hnone (List.find?_isSome.mpr
    ⟨result, hresult, beq_iff_eq.mpr hname⟩), fun element helement => ?_⟩
  rw [helement] at h
  dsimp only at h
  split at h
  · rename_i htype
    exact htype
  · cases h

end Trail

/-! ## What comes after the from clause -/

/-- Every from clause has gained elements with made-up variables only. -/
def Levels.Gathers (levels more : Levels) : Prop :=
  List.Forall₂ (fun spaces filled => ∀ element ∈ clauseElements filled,
    element.binding.generated = false → element ∈ clauseElements spaces) levels more

/-- So has every from clause but the innermost one. -/
def Levels.GathersBelow (levels more : Levels) : Prop :=
  more.length = levels.length ∧ Levels.Gathers levels.tail more.tail

namespace Levels

theorem Gathers.refl (levels : Levels) : levels.Gathers levels :=
  List.forall₂_same.mpr fun _ _ _ h _ => h

theorem Gathers.trans {levels more most : Levels} (h : levels.Gathers more)
    (h' : more.Gathers most) : levels.Gathers most :=
  forall₂_trans h h' fun hfirst hsecond element helement hwritten =>
    hfirst element (hsecond element helement hwritten) hwritten

theorem Gathers.below {levels more : Levels} (h : levels.Gathers more) :
    levels.GathersBelow more := by
  cases h with
  | nil => exact ⟨rfl, .nil⟩
  | cons _ hrest => exact ⟨congrArg Nat.succ (List.Forall₂.length_eq hrest).symm, hrest⟩

theorem GathersBelow.trans {levels more most : Levels} (h : levels.GathersBelow more)
    (h' : more.GathersBelow most) : levels.GathersBelow most :=
  ⟨h'.1.trans h.1, h.2.trans h'.2⟩

/-- An implicit join is an element with a made-up variable. -/
theorem gathers_joined {place : Place} {root : FromElement} {joins : List Resolved.Join}
    {element : FromElement} (hdrawn : element.binding.generated = true) :
    Gathers (place.fill (.rooted root joins))
      (place.fill (.rooted root (joins ++ [.mk element none]))) := by
  refine List.rel_append (Gathers.refl _) (.cons ?_ (Gathers.refl _))
  intro other hother hwritten
  simp only [Place.clause, clauseElements, List.flatMap_append, List.flatMap_cons,
    OpenSpace.elements, List.map_append, List.map_cons, List.map_nil, List.mem_append,
    List.mem_cons, Resolved.Join.element, List.not_mem_nil, or_false] at hother ⊢
  rcases hother with hleft | (hroot | hjoins | rfl) | hright
  · exact .inl hleft
  · exact .inr (.inl (.inl hroot))
  · exact .inr (.inl (.inr hjoins))
  · cases hdrawn.symm.trans hwritten
  · exact .inr (.inr hright)

end Levels

/-- The from clauses have changed as is said, and of the scopes only the current one has, which is
still separate. -/
structure Context.Ensues (clauses : Levels → Levels → Prop) (before after : Context) : Prop where
  levels : clauses before.levels after.levels
  trail : ∃ marks, after.trail = marks ++ before.trail ∧ ∀ mark ∈ marks, mark.isOpened = false
  separate : before.trail.Separate → after.trail.Separate

namespace Context.Ensues

variable {clauses weaker : Levels → Levels → Prop} {before between after : Context}

theorem of_levels (hlevels : clauses before.levels after.levels)
    (htrail : after.trail = before.trail) : before.Ensues clauses after :=
  ⟨hlevels, ⟨[], htrail, fun _ hmark => by cases hmark⟩, by rw [htrail]; exact id⟩

theorem binds (hlevels : clauses before.levels after.levels) {element : FromElement}
    (hbind : before.trail.bind element = .ok after.trail) : before.Ensues clauses after := by
  refine ⟨hlevels, ⟨[.element element], (Trail.bind_ok hbind).1, fun mark hmark => ?_⟩,
    fun h => h.bind hbind⟩
  rw [List.mem_singleton.mp hmark]
  rfl

theorem selects (hlevels : clauses before.levels after.levels) {result : ResultVariable}
    (htrail : after.trail = .selection result :: before.trail) :
    before.Ensues clauses after := by
  refine ⟨hlevels, ⟨[.selection result], htrail, fun mark hmark => ?_⟩, by rw [htrail]; exact id⟩
  rw [List.mem_singleton.mp hmark]
  rfl

/-- A selection is bound where it has an alias. -/
theorem result (hlevels : after.levels = before.levels) {position : Nat}
    {selection : Resolved.Selection}
    (hbind : before.trail.bindSelection position selection = .ok after.trail) :
    before.Ensues Levels.Gathers after := by
  have hgathers : before.levels.Gathers after.levels := hlevels ▸ .refl _
  rcases Trail.bindSelection_ok hbind with ⟨-, htrail⟩ | ⟨aliasName, -, htrail⟩
  · exact .of_levels hgathers htrail
  · exact .selects hgathers htrail

theorem trans (htrans : ∀ {first second third}, clauses first second → clauses second third →
    clauses first third) (h : before.Ensues clauses between) (h' : between.Ensues clauses after) :
    before.Ensues clauses after := by
  obtain ⟨marks, htrail, hmarks⟩ := h.trail
  obtain ⟨later, htrail', hlater⟩ := h'.trail
  refine ⟨htrans h.levels h'.levels, ⟨later ++ marks, ?_, fun mark hmark => ?_⟩,
    h'.separate ∘ h.separate⟩
  · rw [htrail', htrail, List.append_assoc]
  · exact (List.mem_append.mp hmark).elim (hlater mark) (hmarks mark)

theorem mono (himp : ∀ {levels more}, clauses levels more → weaker levels more)
    (h : before.Ensues clauses after) : before.Ensues weaker after :=
  ⟨himp h.levels, h.trail, h.separate⟩

/-- A level that is left gives back the scopes around it. -/
theorem leave (h : before.openLevel.Ensues Levels.GathersBelow after) :
    before.Ensues Levels.Gathers after.leaveLevel := by
  obtain ⟨marks, htrail, hmarks⟩ := h.trail
  refine .of_levels h.levels.2 ?_
  change after.trail.leave = before.trail
  rw [htrail]
  exact Trail.leave_append before.trail hmarks

end Context.Ensues

/-- What steps leave of the from clauses that have been read. -/
theorem ensuingMotion (schema : Schema) (treat : DottedName → Prop) :
    Motion schema treat (Context.Ensues Levels.Gathers)
      (Context.Ensues Levels.GathersBelow) where
  refl _ := .of_levels (.refl _) rfl
  trans _ _ _ h h' := h.trans Levels.Gathers.trans h'
  within _ _ h := h.mono Levels.Gathers.below
  transWithin _ _ _ h h' := h.trans Levels.GathersBelow.trans h'
  depth _ _ h := h.levels.1
  idle _ _ _ _ _ _ _ := .of_levels (.refl _) rfl
  register _ _ _ := .of_levels (.refl _) rfl
  bind _ _ _ _ hbind := .binds (.refl _) hbind
  joinImplicitly _ _ _ _ _ _ _ _ hdrawn hopened _ := by
    refine .of_levels ?_ rfl
    rw [hopened]
    exact Levels.gathers_joined hdrawn
  resolve _ _ _ h := ⟨h.levels, h.trail, h.separate⟩
  nest _ _ h := h.leave
  openSpace context id levels hopen := by
    refine .of_levels ⟨(depthMotion schema treat).openSpace context id levels hopen, ?_⟩ rfl
    change Levels.Gathers context.levels.tail levels.tail
    cases hlevels : context.levels with
    | nil =>
      rw [hlevels] at hopen
      cases hopen
    | cons spaces below =>
      rw [hlevels] at hopen
      cases hopen
      exact .refl _
  declare _ _ _ hbind := .binds ⟨rfl, .refl _⟩ hbind
  fill context place space filled hopened habove := by
    refine .of_levels ⟨fill_length filled hopened, ?_⟩ rfl
    change Levels.Gathers context.levels.tail (place.fill filled).tail
    rw [hopened]
    simp only [Place.fill, habove, List.nil_append, List.tail_cons]
    exact .refl _
  select _ _ := .selects ⟨rfl, .refl _⟩ rfl

/-- Selections change the from clauses as expressions do. -/
theorem ensuingSelecting :
    Selecting (Context.Ensues Levels.Gathers) (Context.Ensues Levels.Gathers) where
  within _ _ h := h
  trans _ _ _ h h' := h.trans Levels.Gathers.trans h'
  select _ _ := .selects (.refl _) rfl

/-! ## Selections -/

namespace Context

variable {schema : Schema} {clean : Prop} {before between after context : Context}

/-- The selection has the type of every element of the innermost from clause whose written variable
is its name. -/
def Suits (context : Context) (selection : Resolved.Selection) : Prop :=
  ∀ element ∈ clauseElements (context.levels.headD []), element.binding.generated = false →
    selection.alias? = some element.aliasName → selection.expression.type? = some element.type

/-- A result variable that can be bound suits the from clause. -/
theorem Sound.suits (h : context.Sound schema clean) (hseparate : context.trail.Separate)
    {position : Nat} {selection : Resolved.Selection} {trail : Trail}
    (hbind : context.trail.bindSelection position selection = .ok trail) :
    context.Suits selection := by
  intro element helement hwritten halias
  refine (Trail.bindSelection_some hbind halias).2 element (hseparate.find? ?_)
  have hframed := h.framed
  cases hlevels : context.levels with
  | nil =>
    rw [hlevels] at helement
    cases helement
  | cons spaces below =>
    cases hframes : context.trail.frames with
    | nil => exact absurd hframes (Trail.frames_ne_nil _)
    | cons frame outer =>
      rw [hlevels, hframes] at hframed
      rw [hlevels] at helement
      exact hframed.1 element helement hwritten

theorem Suits.ensues {selection : Resolved.Selection} (h : before.Suits selection)
    (hensues : before.Ensues Levels.Gathers after) : after.Suits selection := by
  intro element helement hwritten
  have hlevels := hensues.levels
  refine h element ?_ hwritten
  cases hcases : after.levels with
  | nil =>
    rw [hcases] at helement
    cases helement
  | cons spaces below =>
    rw [hcases] at hlevels helement
    obtain ⟨first, rest, hfirst, -, hbefore⟩ := List.forall₂_cons_right_iff.mp hlevels
    rw [hbefore]
    exact hfirst element helement hwritten

/-- The selections that are bound between two states have names of their own, which look like no
made-up variables where those of the phrase do not, and suit the from clause. -/
structure Selects (clean : Prop) (before : Context) (selections : List Resolved.Selection)
    (after : Context) : Prop where
  plain : clean → ∀ selection ∈ selections, Phrase.PlainVariable selection.alias?
  distinct : (selections.filterMap Resolved.Selection.alias?).Nodup
  free : ∀ selection ∈ selections, ∀ result ∈ before.trail.results,
    selection.alias? ≠ some result.aliasName
  suits : ∀ selection ∈ selections, after.Suits selection

namespace Selects

variable {selections : List Resolved.Selection} {selection : Resolved.Selection}

theorem nil : Selects clean before [] after :=
  ⟨fun _ _ h => (by cases h), List.nodup_nil, fun _ h => (by cases h), fun _ h => (by cases h)⟩

theorem ensues (h : Selects clean before selections between)
    (hensues : between.Ensues Levels.Gathers after) : Selects clean before selections after :=
  ⟨h.plain, h.distinct, h.free, fun selection hmem => (h.suits selection hmem).ensues hensues⟩

/-- A selection is bound, and others after it. -/
theorem cons (hresults : between.trail.results = before.trail.results)
    (hplain : clean → Phrase.PlainVariable selection.alias?) {position : Nat} {bound : Context}
    (hbind : between.trail.bindSelection position selection = .ok bound.trail)
    (hsuits : after.Suits selection) (hrest : Selects clean bound selections after) :
    Selects clean before (selection :: selections) after := by
  have hkept : ∀ result ∈ between.trail.results, result ∈ bound.trail.results := by
    intro result hresult
    rcases Trail.bindSelection_ok hbind with ⟨-, htrail⟩ | ⟨aliasName, -, htrail⟩
    · rwa [htrail]
    · rw [htrail]
      exact List.mem_cons_of_mem _ hresult
  refine ⟨fun hclean => List.forall_mem_cons.mpr ⟨hplain hclean, hrest.plain hclean⟩, ?_,
    List.forall_mem_cons.mpr ⟨?_, ?_⟩, List.forall_mem_cons.mpr ⟨hsuits, hrest.suits⟩⟩
  · rcases Trail.bindSelection_ok hbind with ⟨hnone, -⟩ | ⟨aliasName, halias, htrail⟩
    · rw [List.filterMap_cons_none hnone]
      exact hrest.distinct
    · rw [List.filterMap_cons_some halias, List.nodup_cons]
      refine ⟨fun hmem => ?_, hrest.distinct⟩
      obtain ⟨other, hother, hsame⟩ := List.mem_filterMap.mp hmem
      exact hrest.free other hother ⟨aliasName, position, selection.expression⟩
        (by rw [htrail]; exact List.mem_cons_self) hsame
  · intro result hresult halias
    rw [← hresults] at hresult
    exact (Trail.bindSelection_some hbind halias).1 result hresult rfl
  · intro other hother result hresult
    rw [← hresults] at hresult
    exact hrest.free other hother result (hkept result hresult)

/-- Selections without aliases. -/
theorem unnamed (h : ∀ selection ∈ selections, selection.alias? = none) :
    Selects clean before selections after := by
  refine ⟨fun _ selection hmem name hname => ?_, ?_, fun selection hmem result _ hname => ?_,
    fun selection hmem element _ _ hname => ?_⟩
  · cases (h selection hmem).symm.trans hname
  · rw [List.filterMap_eq_nil_iff.mpr h]
    exact List.nodup_nil
  · cases (h selection hmem).symm.trans hname
  · cases (h selection hmem).symm.trans hname

/-- When the query is left, its selections agree with its elements. -/
theorem agree (h : Selects clean before selections after) (hclean : clean)
    (hsound : after.Sound schema clean) {spaces : List Resolved.Space}
    (hclose : Levels.close (after.levels.headD []) = .ok spaces) {select : Resolved.Select}
    (hspaces : select.spaces = spaces) (hselections : select.selections = selections) :
    select.AliasesAgree Resolved.SameType := by
  subst hspaces hselections
  refine ⟨h.distinct, fun selection hmem element helement halias => ?_⟩
  rw [Levels.close_elements hclose] at helement
  have hregistered : element ∈ after.registered := by
    refine (hsound.fit.element (Resolved.builtRules_implies fun _ h => h) element ?_).1
    cases hlevels : after.levels with
    | nil =>
      rw [hlevels] at helement
      cases helement
    | cons clause below =>
      rw [hlevels] at helement
      exact List.mem_append_left _ helement
  -- A made-up variable is none of the names that are written.
  refine h.suits selection hmem element helement ?_ halias
  cases hgenerated : element.binding.generated with
  | false => rfl
  | true =>
    obtain ⟨number, -, hname⟩ := (hsound.named hclean element hregistered).1 hgenerated
    exact absurd hname (h.plain hclean selection hmem _ halias number)

end Selects
end Context

/-! ## The clauses of a query -/

namespace Step

variable {schema : Schema} {before : Context}

/-- Where the step ends, no element with a written variable has been added to a from clause. -/
abbrev Ensuing {α : Type} (schema : Schema) (before : Context) (step : Step α) : Prop :=
  Ends schema before step fun _ after => before.Ensues Levels.Gathers after

/-- The motion of from clauses where every name is admitted. -/
abbrev freeEnsuing (schema : Schema) :
    Motion schema (fun _ => True) (Context.Ensues Levels.Gathers)
      (Context.Ensues Levels.GathersBelow) :=
  ensuingMotion schema fun _ => True

/-- The from clause of a query leaves its scope separate. -/
theorem spaces_separate (written : List Phrase.Space) (h : before.trail.Separate) :
    Ends schema before (spaces written) fun _ after => after.trail.Separate :=
  ends_mono (spaces_move (freeEnsuing schema) written
    (Phrase.spaces_meet treating_always written)).ends fun _ _ hensues => hensues.separate h

theorem selectExpression_ensues (written : Phrase.SelectExpression) :
    Ensuing schema before (selectExpression written) :=
  (selectExpression_moves (freeEnsuing schema) written (written.meets treating_always)).ends

theorem selections_ensue (written : List Phrase.SelectItem) (position : Nat) :
    Ensuing schema before (selections written position) :=
  (selections_move (freeEnsuing schema) written position ensuingSelecting
    (Phrase.selections_meet treating_always written)).ends

theorem restriction_ensues (written : Option Phrase.Predicate) :
    Ensuing schema before (restriction written) :=
  (restriction_moves (freeEnsuing schema) written
    (Phrase.restriction_meets treating_always written)).ends

theorem order_ensues (written : Option (List Phrase.SortItem)) :
    Ensuing schema before (order written) :=
  (order_moves (freeEnsuing schema) written (Phrase.order_meets treating_always written)).ends

theorem optional_ensues (written : Option Phrase.Expression) :
    Ensuing schema before (optional written) :=
  (optional_moves (freeEnsuing schema) written
    (Phrase.optional_meets treating_always written)).ends

theorem implicitSelection_unnamed :
    Ends schema before implicitSelection fun selections _ =>
      ∀ selection ∈ selections, selection.alias? = none := by
  refine ends_get_bind ?_
  split
  · exact ends_throw _
  refine ends_modify_bind (ends_bind (Q := fun _ _ => True) (fun _ _ _ => trivial) fun _ _ _ => ?_)
  refine ends_bind (Q := fun _ _ => True) (fun _ _ _ => trivial) fun _ _ _ => ends_pure ?_
  intro selection hmem
  rw [List.mem_singleton.mp hmem]
  rfl

end Step
end EntityQuery.Interpretation

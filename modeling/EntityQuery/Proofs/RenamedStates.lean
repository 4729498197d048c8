import EntityQuery.Proofs.RenamedScopes

/-!
# States with other variables

The state with other variables has them everywhere: in the registered elements, in the scopes and in
the open from clauses. What a change does to a state, it does to the state with other variables.

* `Context.renamed`: the state with other variables; `Renaming.Fits`: the states that steps reach.
* `Levels.update_renamed`, `Levels.openSpace_renamed`, `Levels.close_renamed`: from clauses.
* `Context.implicitJoin?_renamed`, `Context.leaveLevel_renamed`: states.
-/

namespace EntityQuery.Interpretation

open Resolved (Join Space joinsRenamed)

section

variable (rename : String → String)

def OpenSpace.renamed : OpenSpace → OpenSpace
  | vacant => vacant
  | rooted root joins => rooted (root.renamed rename) (joinsRenamed rename joins)

def Levels.renamed (levels : Levels) : Levels := levels.map (List.map (OpenSpace.renamed rename))

/-- The state with other variables. Advisories may name variables, so that others take their
place. -/
def Context.renamed (advisories : List Report.Advisory) (context : Context) : Context :=
  { context with
    registered := context.registered.map (FromElement.renamed rename)
    trail := context.trail.renamed rename
    levels := context.levels.renamed rename
    advisories := advisories }

end

variable {rename : String → String}

/-! ## Open from clauses -/

theorem element_renamed (join : Join) :
    (join.renamed rename).element = join.element.renamed rename := by
  cases join
  rfl

namespace OpenSpace

theorem root?_renamed (space : OpenSpace) :
    (space.renamed rename).root? = space.root?.map (FromElement.renamed rename) := by
  cases space <;> rfl

theorem contains_renamed (space : OpenSpace) (uid : Nat) :
    (space.renamed rename).contains uid = space.contains uid := by
  cases space with
  | vacant => rfl
  | rooted root joins =>
    have hjoins : (fun element : FromElement => element.uid == uid) ∘ Join.element
        ∘ Join.renamed rename
        = (fun element : FromElement => element.uid == uid) ∘ Join.element := by
      funext join
      simp only [Function.comp_apply]
      rw [element_renamed, FromElement.uid_renamed]
    simp only [renamed, contains, elements, List.any_cons, Resolved.joinsRenamed_eq, List.map_map,
      List.any_map, hjoins, FromElement.uid_renamed]

theorem setRoot_renamed (space : OpenSpace) (element : FromElement) :
    Agrees (fun filled filled' => filled' = filled.renamed rename) (space.setRoot element)
      ((space.renamed rename).setRoot (element.renamed rename)) := by
  cases space with
  | vacant => exact .ok rfl
  | rooted root joins => exact .error rfl

theorem addJoin_renamed (space : OpenSpace) (element : FromElement) :
    Agrees (fun filled filled' => filled' = filled.renamed rename) (space.addJoin element)
      ((space.renamed rename).addJoin (element.renamed rename)) := by
  cases space with
  | vacant => exact .error rfl
  | rooted root joins =>
    refine .ok ?_
    simp only [renamed, Resolved.joinsRenamed_eq, List.map_append]
    rfl

theorem restrictJoins_renamed (uid : Nat) (restriction : Resolved.Predicate) (joins : List Join) :
    restrictJoins uid (restriction.renamed rename) (joinsRenamed rename joins)
      = joinsRenamed rename (restrictJoins uid restriction joins) := by
  induction joins with
  | nil => rfl
  | cons join joins ih =>
    rw [joinsRenamed, restrictJoins, restrictJoins, element_renamed, FromElement.uid_renamed, ih]
    split <;> rfl

theorem restrict_renamed (space : OpenSpace) (uid : Nat) (restriction : Resolved.Predicate) :
    (space.renamed rename).restrict uid (restriction.renamed rename)
      = (space.restrict uid restriction).renamed rename := by
  cases space with
  | vacant => rfl
  | rooted root joins => exact congrArg (rooted _) (restrictJoins_renamed uid restriction joins)

end OpenSpace

namespace Levels

theorem length_renamed (levels : Levels) : (levels.renamed rename).length = levels.length :=
  List.length_map _

theorem spaceOf?_renamed (levels : Levels) (uid : Nat) :
    spaceOf? (levels.renamed rename) uid = spaceOf? levels uid := by
  induction levels with
  | nil => rfl
  | cons spaces below ih =>
    have hspaces : (spaces.map (OpenSpace.renamed rename)).findIdx?
          (fun space => space.contains uid)
        = spaces.findIdx? fun space => space.contains uid := by
      rw [List.findIdx?_map]
      refine congrArg (List.findIdx? · spaces) (funext fun space => ?_)
      exact OpenSpace.contains_renamed space uid
    have hcons : renamed rename (spaces :: below)
        = spaces.map (OpenSpace.renamed rename) :: renamed rename below := rfl
    rw [hcons, spaceOf?, spaceOf?, hspaces, ih, length_renamed]

theorem firstRoot?_renamed (levels : Levels) :
    firstRoot? (levels.renamed rename) = (firstRoot? levels).map (FromElement.renamed rename) := by
  cases levels with
  | nil => rfl
  | cons spaces below =>
    cases spaces with
    | nil => rfl
    | cons space spaces => exact OpenSpace.root?_renamed space

theorem openSpace_renamed (levels : Levels) :
    Agrees (fun opened opened' => opened' = (opened.1, opened.2.renamed rename))
      levels.openSpace (openSpace (levels.renamed rename)) := by
  cases levels with
  | nil => exact .error rfl
  | cons spaces below =>
    refine .ok ?_
    simp [renamed, OpenSpace.renamed]

theorem headD_renamed (levels : Levels) :
    (levels.renamed rename).headD [] = (levels.headD []).map (OpenSpace.renamed rename) := by
  cases levels <;> rfl

/-- A change that agrees on every space agrees on the from clauses. -/
theorem update_renamed {change change' : OpenSpace → Except Fault OpenSpace}
    (hchange : ∀ space, Agrees (fun filled filled' => filled' = filled.renamed rename)
      (change space) (change' (space.renamed rename))) (levels : Levels) (id : SpaceId) :
    Agrees (fun changed changed' => changed' = changed.renamed rename) (levels.update change id)
      (update change' (levels.renamed rename) id) := by
  induction levels with
  | nil => exact .error rfl
  | cons spaces below ih =>
    have hcons : renamed rename (spaces :: below)
        = spaces.map (OpenSpace.renamed rename) :: renamed rename below := rfl
    rw [hcons, update, update, length_renamed]
    split
    · rw [List.getElem?_map]
      cases spaces[id.index]? with
      | none => exact .error rfl
      | some space =>
        refine (hchange space).map fun filled filled' hfilled => ?_
        rw [hfilled, ← List.map_set]
        rfl
    · refine ih.map fun deeper deeper' hdeeper => ?_
      rw [hdeeper]
      rfl

theorem close_renamed (spaces : List OpenSpace) :
    Agrees (fun closed closed' => closed' = Resolved.spacesRenamed rename closed)
      (Levels.close spaces) (Levels.close (spaces.map (OpenSpace.renamed rename))) := by
  induction spaces with
  | nil => exact .ok rfl
  | cons space spaces ih =>
    simp only [Levels.close, List.map_cons, List.mapM_cons] at ih ⊢
    cases space with
    | vacant => exact .error rfl
    | rooted root joins =>
      refine ih.bind (S := fun closed closed' => closed' = Resolved.spacesRenamed rename closed)
        fun rest rest' hrest => .ok ?_
      rw [hrest]
      rfl

end Levels

/-! ## States -/

namespace Context

variable {advisories : List Report.Advisory}

theorem find?_renamed (context : Context) (uid : Nat) :
    (context.renamed rename advisories).find? uid
      = (context.find? uid).map (FromElement.renamed rename) :=
  find?_map_of_forall fun element _ => by rw [FromElement.uid_renamed]

theorem implicitJoin?_renamed (context : Context) (source : Nat) (declared : String) :
    (context.renamed rename advisories).implicitJoin? source declared
      = (context.implicitJoin? source declared).map (FromElement.renamed rename) := by
  rw [implicitJoin?, implicitJoin?]
  change (context.implicitJoins.find? _).bind _ = _
  cases context.implicitJoins.find? fun known =>
    known.source == source && known.declared == declared with
  | none => rfl
  | some known => exact find?_renamed context known.join

theorem spaceOf?_renamed (context : Context) (element : FromElement) :
    (context.renamed rename advisories).spaceOf? (element.renamed rename)
      = context.spaceOf? element := by
  rw [spaceOf?, FromElement.unwrapped_renamed, FromElement.uid_renamed]
  exact Levels.spaceOf?_renamed context.levels element.unwrapped.uid

theorem leaveLevel_renamed (context : Context) :
    (context.renamed rename advisories).leaveLevel
      = context.leaveLevel.renamed rename advisories := by
  have htrail : (context.trail.renamed rename).leave = context.trail.leave.renamed rename :=
    Trail.leave_renamed rename context.trail
  have hlevels : (context.levels.renamed rename).tail = Levels.renamed rename context.levels.tail :=
    List.map_tail.symm
  simp only [leaveLevel, popResolver, leaveScope, dropClause, renamed, htrail, hlevels]

end Context
end EntityQuery.Interpretation

namespace EntityQuery.Renaming

open Interpretation

variable {schema : Schema} {ρ : Renaming schema} {context : Context}

/-- Everything that is bound or registered is known. -/
structure Fits (ρ : Renaming schema) (context : Context) : Prop where
  trail : ∀ mark ∈ context.trail, ρ.Marks mark
  registered : ∀ element ∈ context.registered, ρ.Knows element

namespace Fits

theorem openLevel (h : ρ.Fits context) : ρ.Fits context.openLevel :=
  ⟨List.forall_mem_cons.mpr ⟨trivial, h.trail⟩, h.registered⟩

theorem leaveLevel (h : ρ.Fits context) : ρ.Fits context.leaveLevel :=
  ⟨fun mark hmark => h.trail mark (Trail.leave_subset context.trail hmark), h.registered⟩

theorem register (h : ρ.Fits context) {element : FromElement} (helement : ρ.Knows element) :
    ρ.Fits (context.register element) :=
  ⟨h.trail, List.forall_mem_cons.mpr ⟨helement, h.registered⟩⟩

/-- An implicit join that was made before is known. -/
theorem implicitJoin? (h : ρ.Fits context) {source : Nat} {declared : String}
    {join : FromElement} (hjoin : join ∈ context.implicitJoin? source declared) :
    ρ.Knows join := by
  obtain ⟨known, -, hfound⟩ := Option.bind_eq_some_iff.mp hjoin
  exact h.registered join (List.mem_of_find?_eq_some hfound)

end Fits
end EntityQuery.Renaming

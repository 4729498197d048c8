import EntityQuery.Interpretation.Trail

/-!
# Frames of a trail

What a trail holds after a mark was put on it, and what is left when a scope is left again. A frame
holds the elements of one open scope; the first frame is that of the current scope, in which a
variable has to be free to be bound.

* `Trail.elements`, `Trail.results`: the bound elements and the current result variables.
* `Trail.bind_ok`, `Trail.bindSelection_ok`: what binding does where it succeeds.
* `Trail.leave_append`: leaving a scope gives back the trail on which it was opened.
-/

namespace EntityQuery.Interpretation

/-- The mark binds an element. -/
def Mark.isElement (mark : Mark) : Bool := mark.element?.isSome

theorem Mark.isOpened_of_isElement {mark : Mark} (h : mark.isElement = true) :
    mark.isOpened = false := by
  cases mark with
  | opened => cases h
  | element bound => rfl
  | selection result => cases h

namespace Trail

/-- The elements that are bound in any open scope, newest first. -/
def elements (trail : Trail) : List FromElement := trail.filterMap Mark.element?

/-- The result variables of the current scope, newest first. -/
def results (trail : Trail) : List ResultVariable := (current trail).filterMap Mark.selection?

theorem element?_some {trail : Trail} {aliasName : String} {element : FromElement}
    (h : trail.element? aliasName = some element) : element ∈ trail.elements :=
  List.mem_of_find?_eq_some h

theorem selection?_some {trail : Trail} {aliasName : String} {result : ResultVariable}
    (h : trail.selection? aliasName = some result) :
    result ∈ trail.results ∧ result.aliasName = aliasName := by
  refine ⟨List.mem_of_find?_eq_some h, ?_⟩
  have hname := List.find?_some h
  exact eq_of_beq hname

/-! ## Frames -/

theorem frames_ne_nil (trail : Trail) : trail.frames ≠ [] := by
  cases trail with
  | nil => exact List.cons_ne_nil _ _
  | cons mark trail =>
    cases mark with
    | opened => exact List.cons_ne_nil _ _
    | element bound =>
      simp only [frames]
      split <;> exact List.cons_ne_nil _ _
    | selection result => exact frames_ne_nil trail

theorem frames_element (element : FromElement) (trail : Trail) :
    frames (.element element :: trail)
      = (trail.frames.headD [] ++ [element]) :: trail.frames.tail := by
  simp only [frames]
  split
  · rename_i hnil
    exact absurd hnil trail.frames_ne_nil
  · rename_i frame outer hframes
    simp [hframes]

theorem frames_subset {trail : Trail} : ∀ frame ∈ trail.frames, frame ⊆ trail.elements := by
  induction trail with
  | nil =>
    intro frame hframe
    simp only [frames, List.mem_singleton] at hframe
    simp [hframe]
  | cons mark trail ih =>
    cases mark with
    | opened =>
      intro frame hframe
      rcases List.mem_cons.mp hframe with rfl | hframe
      · exact List.nil_subset _
      · exact ih frame hframe
    | selection result => exact ih
    | element bound =>
      have helements : elements (.element bound :: trail) = bound :: elements trail := rfl
      intro frame hframe
      rw [frames_element] at hframe
      rw [helements]
      cases hframes : frames trail with
      | nil => exact absurd hframes (frames_ne_nil trail)
      | cons first outer =>
        rw [hframes] at hframe ih
        rcases List.mem_cons.mp hframe with rfl | hframe
        · have hfirst := ih first List.mem_cons_self
          intro element helement
          rcases List.mem_append.mp helement with hold | hnew
          · exact List.mem_cons_of_mem _ (hfirst hold)
          · rw [List.mem_singleton.mp hnew]
            exact List.mem_cons_self
        · exact List.Subset.trans (ih frame (List.mem_cons_of_mem _ hframe))
            (List.subset_cons_self _ _)

/-- The first frame holds what was bound in the current scope. -/
theorem frames_head (trail : Trail) :
    trail.frames.headD [] = ((current trail).filterMap Mark.element?).reverse := by
  induction trail with
  | nil => rfl
  | cons mark trail ih =>
    cases mark with
    | opened => rfl
    | selection result => exact ih
    | element bound =>
      rw [frames_element]
      simp only [List.headD_cons, ih]
      simp [current, Mark.isOpened, Mark.element?]

/-! ## Binding -/

/-- An element is bound where no element of the current scope has its variable. -/
theorem bind_ok {trail after : Trail} {element : FromElement}
    (h : trail.bind element = .ok after) :
    after = .element element :: trail ∧
      ∀ other ∈ trail.frames.headD [], other.aliasName ≠ element.aliasName := by
  simp only [bind] at h
  split at h
  · cases h
  · rename_i hnone
    cases h
    refine ⟨rfl, fun other hother heq => ?_⟩
    rw [frames_head] at hother
    have hfree := List.find?_eq_none.mp hnone other (List.mem_reverse.mp hother)
    exact hfree (beq_iff_eq.mpr heq)

theorem bindSelection_ok {trail after : Trail} {position : Nat} {selection : Resolved.Selection}
    (h : trail.bindSelection position selection = .ok after) :
    selection.alias? = none ∧ after = trail
      ∨ ∃ aliasName, selection.alias? = some aliasName
        ∧ after = .selection ⟨aliasName, position, selection.expression⟩ :: trail := by
  simp only [bindSelection] at h
  split at h
  · rename_i halias
    cases h
    exact .inl ⟨halias, rfl⟩
  · rename_i aliasName halias
    refine .inr ⟨aliasName, halias, ?_⟩
    split at h
    · cases h
    · split at h
      · cases h
        rfl
      · split at h
        · cases h
          rfl
        · cases h

/-! ## Leaving -/

/-- Leaving a scope gives back the trail on which it was opened. -/
theorem leave_append {marks : List Mark} (trail : Trail)
    (hmarks : ∀ mark ∈ marks, mark.isOpened = false) :
    leave (marks ++ .opened :: trail) = trail := by
  have houter : outer? (marks ++ .opened :: trail) = some trail := by
    induction marks with
    | nil => rfl
    | cons mark marks ih =>
      have hrest := ih fun other hother => hmarks other (List.mem_cons_of_mem _ hother)
      cases mark with
      | opened => cases hmarks .opened List.mem_cons_self
      | element bound => exact hrest
      | selection result => exact hrest
  simp [leave, houter]

/-- The frames below a scope are those of the trail on which it was opened. -/
theorem frames_append {marks : List Mark} (trail : Trail)
    (hmarks : ∀ mark ∈ marks, mark.isOpened = false) :
    (frames (marks ++ .opened :: trail)).tail = trail.frames := by
  induction marks with
  | nil => rfl
  | cons mark marks ih =>
    have hrest := ih fun other hother => hmarks other (List.mem_cons_of_mem _ hother)
    cases mark with
    | opened => cases hmarks .opened List.mem_cons_self
    | selection result => exact hrest
    | element bound =>
      rw [List.cons_append, frames_element]
      exact hrest

/-- A bound result variable stands for the selection that it was bound for. -/
theorem bindSelection_results {trail after : Trail} {position : Nat}
    {selection : Resolved.Selection} (h : trail.bindSelection position selection = .ok after) :
    ∀ result ∈ after.results, result ∈ trail.results
      ∨ selection = .mk result.expression (some result.aliasName)
        ∧ result.position = position := by
  intro result hresult
  rcases bindSelection_ok h with ⟨-, rfl⟩ | ⟨aliasName, halias, rfl⟩
  · exact .inl hresult
  · rcases List.mem_cons.mp hresult with rfl | hold
    · obtain ⟨expression, alias?⟩ := selection
      cases halias
      exact .inr ⟨rfl, rfl⟩
    · exact .inl hold

/-- Binding elements leaves the result variables. -/
theorem results_append {marks : List Mark} (trail : Trail)
    (hmarks : ∀ mark ∈ marks, mark.isElement = true) :
    results (marks ++ trail) = trail.results := by
  induction marks with
  | nil => rfl
  | cons mark marks ih =>
    have hrest := ih fun other hother => hmarks other (List.mem_cons_of_mem _ hother)
    cases mark with
    | opened => cases hmarks .opened List.mem_cons_self
    | element bound => exact hrest
    | selection result => cases hmarks (.selection result) List.mem_cons_self

end Trail
end EntityQuery.Interpretation

/-!
# Case folding

Keywords and function names are compared without regard to the case of ASCII letters. Letters of
other scripts keep their case, so two words that differ in such a letter are different words.
-/

namespace EntityQuery.Text

/-- The characters with every ASCII capital replaced by its small letter. -/
def foldCase (text : List Char) : List Char := text.map Char.toLower

/-- The word with every ASCII capital replaced by its small letter. -/
def lowered (word : String) : String := String.ofList (foldCase word.toList)

/-- The words are equal up to the case of ASCII letters. -/
def sameWord (a b : String) : Bool := lowered a == lowered b

@[simp] theorem foldCase_nil : foldCase [] = [] := rfl

@[simp] theorem foldCase_cons (c : Char) (text : List Char) :
    foldCase (c :: text) = c.toLower :: foldCase text := rfl

@[simp] theorem foldCase_append (a b : List Char) :
    foldCase (a ++ b) = foldCase a ++ foldCase b := by
  simp [foldCase]

@[simp] theorem foldCase_length (text : List Char) : (foldCase text).length = text.length := by
  simp [foldCase]

/-- The rest of the text after `word`, which is given in small letters and compared without
regard to case. -/
def dropWord? : List Char → List Char → Option (List Char)
  | [], text => some text
  | _ :: _, [] => none
  | w :: word, c :: text => if c.toLower == w then dropWord? word text else none

theorem dropWord?_eq_some {word text rest : List Char} (h : dropWord? word text = some rest) :
    ∃ front, text = front ++ rest ∧ foldCase front = word := by
  fun_induction dropWord? word text with
  | case1 text => exact ⟨[], by simpa using h, rfl⟩
  | case2 => simp at h
  | case3 w word c text hc ih =>
    obtain ⟨front, rfl, hfold⟩ := ih h
    exact ⟨c :: front, rfl, by simp [hfold, eq_of_beq hc]⟩
  | case4 => simp at h

theorem dropWord?_append (front rest : List Char) :
    dropWord? (foldCase front) (front ++ rest) = some rest := by
  induction front with
  | nil => rfl
  | cons c front ih => simp [dropWord?, ih]

end EntityQuery.Text

import EntityQuery.Grammar.Reading
import EntityQuery.Proofs.PacedGrammar
import Mathlib.Data.List.Induction

/-!
# Rejected texts

Whatever the grammar does on a text, what it leaves of the text is an end of it. So the report of a
rejected text points between two parts of the text, and the line and the column are counted in the
first of them.

* `kindred_of_eq`, `kindred_eq`, `inStep_forText`: a text keeps step with itself, at every depth
  that its length does not exceed.
* `lineColumn_append`: the line and the column of the place behind a part of a text.
* `PointsBetween`: an error that reports the place between two parts of a text.
* `ofText_places`: every rejected text is reported so, and an accepted text is read up to blanks.
-/

namespace EntityQuery.Text

/-! ## Lines and columns -/

/-- The line and the column behind one more character. -/
def passed (place : Nat × Nat) (c : Char) : Nat × Nat :=
  if c = '\n' then (place.1 + 1, 1) else (place.1, place.2 + 1)

theorem advance_append (front rest : List Char) : ∀ start line column offset,
    offset = start + utf8Length front →
      advance offset start line column (front ++ rest) = front.foldl passed (line, column) := by
  induction front with
  | nil =>
    intro start line column offset hoffset
    cases rest with
    | nil => rfl
    | cons c rest =>
      have hstop : offset ≤ start := by simp at hoffset; omega
      rw [List.nil_append, advance, if_pos hstop]
      rfl
  | cons c front ih =>
    intro start line column offset hoffset
    rw [utf8Length_cons] at hoffset
    have hsize := Char.utf8Size_pos c
    have hgo : ¬offset ≤ start := by omega
    have hrest : offset = start + c.utf8Size + utf8Length front := by omega
    rw [List.cons_append, advance, if_neg hgo, List.foldl_cons]
    unfold passed
    split
    · exact ih _ _ _ _ hrest
    · exact ih _ _ _ _ hrest

/-- The number of characters behind the last line break. -/
def lastLineLength (front : List Char) : Nat := (front.reverse.takeWhile (· ≠ '\n')).length

theorem lastLineLength_concat (front : List Char) (c : Char) :
    lastLineLength (front ++ [c]) = if c = '\n' then 0 else lastLineLength front + 1 := by
  unfold lastLineLength
  rw [List.reverse_append, List.reverse_singleton, List.singleton_append, List.takeWhile_cons]
  by_cases hbreak : c = '\n'
  · simp [hbreak]
  · simp [hbreak]

theorem foldl_passed (front : List Char) :
    front.foldl passed (1, 1) = (1 + front.count '\n', 1 + lastLineLength front) := by
  induction front using List.reverseRecOn with
  | nil => rfl
  | append_singleton front c ih =>
    rw [List.foldl_append, ih, List.foldl_cons, List.foldl_nil, passed, lastLineLength_concat,
      List.count_append]
    by_cases hbreak : c = '\n'
    · rw [if_pos hbreak, if_pos hbreak, hbreak]
      rfl
    · have hnone : [c].count '\n' = 0 := List.count_eq_zero.mpr (by simpa using Ne.symm hbreak)
      rw [if_neg hbreak, if_neg hbreak, hnone]
      rfl

/-- The line of the place behind a part of a text is counted by the line breaks in the part, and the
column by the characters behind the last of them. -/
theorem lineColumn_append (front rest : List Char) :
    lineColumn (front ++ rest) (utf8Length front)
      = (1 + front.count '\n', 1 + lastLineLength front) := by
  have hadvance := advance_append front rest 0 1 1 (utf8Length front) (Nat.zero_add _).symm
  rw [lineColumn, hadvance, foldl_passed]

end EntityQuery.Text

namespace EntityQuery.Grammar

open EntityQuery.Phrase EntityQuery.Text
open Report (QueryError Code)

/-! ## A text in step with itself -/

/-- Equal texts are alike, if with a text all ends of it are related to themselves. -/
theorem kindred_of_eq {T : List Char → List Char → Prop}
    (heq : ∀ text other, T text other → text = other)
    (hends : ∀ text rest, T text text → rest <:+ text → T rest rest) : Kindred T := by
  constructor
  · intro text other hrelated
    obtain rfl := heq text other hrelated
    have hsplit : text = text.takeWhile (fun c => !breaks c) ++ text.dropWhile fun c => !breaks c :=
      List.takeWhile_append_dropWhile.symm
    have hstops : Stops (text.dropWhile fun c => !breaks c) := by
      intro c hc
      simpa using not_head_dropWhile c hc
    refine ⟨_, _, _, hsplit, hsplit, hstops, hstops, ?_⟩
    rintro last ⟨front, hlast⟩
    apply hends text _ hrelated
    refine ⟨front, ?_⟩
    rw [← List.append_assoc, hlast, ← hsplit]
  · intro text other hrelated
    obtain rfl := heq text other hrelated
    exact hends text _ hrelated (List.dropWhile_suffix _)
  · intro text other hrelated
    rw [heq text other hrelated]
  · intro text other hrelated
    obtain rfl := heq text other hrelated
    unfold Alike
    cases hread : literal? text with
    | none => exact .none
    | some read => exact .some ⟨rfl, hends text _ hrelated (left_literal hread).1⟩

theorem kindred_eq : Kindred Eq := kindred_of_eq (fun _ _ heq => heq) fun _ _ _ _ => rfl

/-- Readers that keep step on equal texts answer alike. -/
theorem eq_of_inStep {α : Type} {bound : Nat} {reader reader' : Reader α} {after : α → Bool}
    {text : List Char} (h : Reader.InStep Eq bound reader reader' after)
    (hbound : text.length < bound) : reader text = reader' text :=
  h.reply_eq rfl hbound fun _ _ heq => heq

/-- The grammar of a text keeps step with itself on the text. -/
theorem inStep_forText (source : List Char) :
    Inner.InStep Eq (source.length + 1) (forText source) (forText source) :=
  Inner.inStep_ofDepth kindred_eq (source.length + 1) 0 0

/-! ## Reports of rejected texts -/

/-- The error reports the place between two parts of a text: its code and its message tell what
stands behind the place, its offset, line and column what stands before it. -/
structure PointsBetween (front rest : List Char) (error : QueryError) : Prop where
  rejected : ∃ message location, error = .rejectedText error.code message
    (String.ofList (front ++ rest)) (some location)
  offset : error.location?.map Location.offset = some (utf8Length front)
  line : error.location?.map Location.line = some (1 + front.count '\n')
  column : error.location?.map Location.column = some (1 + lastLineLength front)
  length : error.location?.map Location.length = some 1
  code : error.code = if rest.isEmpty then Code.unexpectedEnd else Code.unexpectedToken
  head : ∀ c ∈ rest.head?, isBlank c = false
  message : error.message = if rest.isEmpty then "Unexpected end of input"
    else s!"Unexpected token near '{String.ofList (rest.take quotedLength)}'"

theorem rejection_points {front rest : List Char} (h : ∀ c ∈ rest.head?, isBlank c = false) :
    PointsBetween front rest (rejection (front ++ rest) rest) := by
  have hoffset : utf8Length (front ++ rest) - utf8Length rest = utf8Length front := by
    rw [utf8Length_append, Nat.add_sub_cancel_right]
  have hplace := lineColumn_append front rest
  unfold rejection
  simp only [trimStart_of_head h, hoffset, Location.ofSpan, Span.single, hplace]
  cases rest with
  | nil =>
    exact ⟨⟨_, _, rfl⟩, rfl, rfl, rfl, congrArg some (Nat.add_sub_cancel_left _ 1), rfl, h, rfl⟩
  | cons c rest =>
    exact ⟨⟨_, _, rfl⟩, rfl, rfl, rfl, congrArg some (Nat.add_sub_cancel_left _ 1), rfl, h, rfl⟩

/-- The end of a text behind a line break lies on the second line. -/
example : (rejection "1 +\n  ".toList "\n  ".toList).location? = some ⟨2, 3, 6, 1⟩ := by decide

/-- A rejection where an end of the text begins is reported behind the blanks there. -/
theorem rejection_places {source rest : List Char} (h : rest <:+ source) :
    ∃ front last, source = front ++ last ∧ PointsBetween front last (rejection source rest) := by
  obtain ⟨front, rfl⟩ := h
  have hsplit : front ++ rest = front ++ rest.takeWhile isBlank ++ trimStart rest := by
    rw [List.append_assoc, trimStart, List.takeWhile_append_dropWhile]
  have hsame : rejection (front ++ rest) rest = rejection (front ++ rest) (trimStart rest) := by
    unfold rejection
    rw [trimStart_trimStart]
  refine ⟨front ++ rest.takeWhile isBlank, trimStart rest, hsplit, ?_⟩
  rw [hsame, hsplit]
  exact rejection_points not_head_dropWhile

/-- A reader that keeps step with itself either reads the whole text up to blanks, or the text is
rejected at a place in it. -/
theorem whole_places {α : Type} {bound : Nat} {reader : Reader α} {after : α → Bool}
    {source : List Char} (h : Reader.InStep Eq bound reader reader after)
    (hbound : source.length < bound) :
    (∀ error, reader.whole source = .error error →
        ∃ front rest, source = front ++ rest ∧ PointsBetween front rest error)
      ∧ ∀ value, reader.whole source = .ok value →
        ∃ front rest, source = front ++ rest ∧ reader source = .ok value rest
          ∧ ∀ c ∈ rest, isBlank c = true := by
  have hleaves := h.leaves rfl hbound
  unfold Reader.whole
  cases hreply : reader source with
  | fail rest =>
    constructor
    · intro error herror
      cases herror
      exact rejection_places (hleaves.fail hreply).1
    · intro value hvalue
      cases hvalue
  | ok value rest =>
    have hsuffix := (hleaves.ok hreply).1
    constructor
    · intro error herror
      simp only at herror
      split at herror
      · cases herror
      · cases herror
        exact rejection_places hsuffix
    · intro value' hvalue
      simp only at hvalue
      split at hvalue
      · rename_i hblank
        cases hvalue
        obtain ⟨front, hfront⟩ := hsuffix
        have hall : ∀ c ∈ rest, isBlank c = true := by
          simpa [trimStart, List.dropWhile_eq_nil_iff] using hblank
        exact ⟨front, rest, hfront.symm, rfl, hall⟩
      · cases hvalue

end EntityQuery.Grammar

namespace EntityQuery.Phrase

open Grammar
open Text (isBlank)

/-- A text that is rejected as a statement, or as an expression, is rejected with a report that
carries the text and points between two parts of it: at the end of the text, or at a character that
is not blank and that the report quotes. A text that is accepted is read up to blanks at its end. -/
theorem ofText_places (source : String) :
    (∀ error, Statement.ofText source = .error error ∨ Expression.ofText source = .error error →
        ∃ front rest, source.toList = front ++ rest ∧ PointsBetween front rest error)
      ∧ (∀ phrase, Statement.ofText source = .ok phrase →
        ∃ front rest, source.toList = front ++ rest ∧ (∀ c ∈ rest, isBlank c = true)
          ∧ statement (forText source.toList) source.toList = .ok phrase rest)
      ∧ ∀ phrase, Expression.ofText source = .ok phrase →
        ∃ front rest, source.toList = front ++ rest ∧ (∀ c ∈ rest, isBlank c = true)
          ∧ concatenation (forText source.toList) source.toList = .ok phrase rest := by
  have hinner := inStep_forText source.toList
  have hbound : source.toList.length < source.toList.length + 1 + 1 := by omega
  obtain ⟨hstatement, hstatement'⟩ := whole_places (statement_inStep kindred_eq hinner) hbound
  obtain ⟨hexpression, hexpression'⟩ :=
    whole_places (concatenation_inStep kindred_eq hinner) hbound
  refine ⟨?_, ?_, ?_⟩
  · intro error herror
    rcases herror with herror | herror
    · exact hstatement error herror
    · exact hexpression error herror
  · intro phrase hphrase
    obtain ⟨front, rest, hsplit, hread, hblank⟩ := hstatement' phrase hphrase
    exact ⟨front, rest, hsplit, hblank, hread⟩
  · intro phrase hphrase
    obtain ⟨front, rest, hsplit, hread, hblank⟩ := hexpression' phrase hphrase
    exact ⟨front, rest, hsplit, hblank, hread⟩

end EntityQuery.Phrase

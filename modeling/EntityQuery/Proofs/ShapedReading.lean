import EntityQuery.Proofs.FailedStatements
import EntityQuery.Proofs.RelatedReading

/-!
# Shapes that are read

The grammar reads only some of the shapes that a phrase can have: operators have two operands, a
character literal has one character, and `in` stands before a query in parentheses or before a list.
What an interpretation can still reject is a call of a function of a collection with a wrong number
of arguments, and `exists` before something that is no query.

* `Part.Shaped`, `shapeliness`: the shapes that are read, a congruence.
* `Statement.ofText_shaped`: every part of a statement that is read has such a shape.
* `interpret_shape`: the faults about shapes that a text can have.
-/

namespace EntityQuery

namespace Phrase

/-- The part has a shape that the grammar reads. -/
def Part.Shaped : Part → Prop
  | .expression (.arithmetic _ operands) => operands.length = 2
  | .expression (.concatenation operands) => operands.length = 2
  | .expression (.literal token) => token.kind = .character → token.text.toList.length = 1
  | .predicate (.inSubquery _ operand _) => operand.isSubquery = true
  | _ => True

/-- All parts have shapes that the grammar reads. -/
def Shapely (parts : List Part) : Prop := ∀ part ∈ parts, part.Shaped

theorem shapely_nil : Shapely [] := fun _ hmem => nomatch hmem

theorem shapely_append {front back : List Part} :
    Shapely (front ++ back) ↔ Shapely front ∧ Shapely back :=
  List.forall_mem_append

theorem shapely_cons {part : Part} {parts : List Part} :
    Shapely (part :: parts) ↔ part.Shaped ∧ Shapely parts :=
  List.forall_mem_cons

/-- Only a single quoted text of one character is a character literal. -/
theorem Literal.IsRead.shaped {token : Literal} (h : token.IsRead) :
    Part.Shaped (.expression (.literal token)) := by
  intro hkind
  cases Grammar.literalForm_of_isRead h with
  | quoted quote hquote htoken hform =>
    rw [hkind, Grammar.quotedKind] at hform
    split at hform
    · rename_i hone
      exact (by simpa using hone : _ ∧ token.text.toList.length = 1).2
    · cases hform
  | word htoken hword =>
    have hall : ∀ entry ∈ Grammar.wordLiterals, entry.2 ≠ .character := by decide
    exact absurd hkind (hall _ hword)
  | number c letters htoken hc hagain =>
    have hread := hagain [] (Grammar.apart_spaced [])
    obtain ⟨_, -, -, -, hform, -⟩ := Grammar.numericLiteral?_eq_some_iff.mp hread
    have hnumber := hform.kind_mem
    rw [hkind] at hnumber
    exact absurd hnumber (by decide)

/-! ## Parts of lists and options -/

theorem shapely_of_forall₂ {α : Type} {R : α → α → Prop} {f : α → List Part}
    {g : List α → List Part} (hnil : g [] = [])
    (hcons : ∀ value values, g (value :: values) = f value ++ g values)
    (himp : ∀ value other, R value other → Shapely (f value)) {values others : List α}
    (h : List.Forall₂ R values others) : Shapely (g values) := by
  induction h with
  | nil => rw [hnil]; exact shapely_nil
  | cons hfirst _ ih => rw [hcons]; exact shapely_append.mpr ⟨himp _ _ hfirst, ih⟩

theorem shapely_expressions {written other : List Expression}
    (h : List.Forall₂ (fun written _ => Shapely written.parts) written other) :
    Shapely (expressionsParts written) :=
  shapely_of_forall₂ rfl (fun _ _ => rfl) (fun _ _ => id) h

theorem shapely_optional {written other : Option Expression}
    (h : Option.Rel (fun written _ => Shapely written.parts) written other) :
    Shapely (optionalParts written) := by
  cases h with
  | some h => exact h
  | none => exact shapely_nil

theorem shapely_restriction {written other : Option Predicate}
    (h : Option.Rel (fun written _ => Shapely written.parts) written other) :
    Shapely (restrictionParts written) := by
  cases h with
  | some h => exact h
  | none => exact shapely_nil

theorem shapely_pair {left right : Expression} (hleft : Shapely left.parts)
    (hright : Shapely right.parts) : Shapely (expressionsParts [left, right]) :=
  shapely_append.mpr ⟨hleft, shapely_append.mpr ⟨hright, shapely_nil⟩⟩

theorem shapely_items {items other : List SelectItem}
    (h : List.Forall₂ (SelectItem.Related fun written _ => Shapely written.parts) items other) :
    Shapely (itemsParts items) := by
  refine shapely_of_forall₂ (f := fun item => itemsParts [item]) rfl ?_ ?_ h
  · rintro ⟨written, alias?⟩ items
    exact (congrArg (· ++ itemsParts items) (List.append_nil written.parts)).symm
  · rintro ⟨written, alias?⟩ ⟨written', alias?'⟩ ⟨hwritten, -⟩
    exact shapely_append.mpr ⟨hwritten, shapely_nil⟩

theorem shapely_clause {clause other : Option SelectClause}
    (h : Option.Rel (SelectClause.Related fun written _ => Shapely written.parts) clause other) :
    Shapely (clauseParts clause) := by
  cases h with
  | none => exact shapely_nil
  | @some clause other h =>
    obtain ⟨distinct, items⟩ := clause
    obtain ⟨distinct', items'⟩ := other
    exact shapely_items h.2

theorem shapely_spaces {spaces other : List Space}
    (h : List.Forall₂ (Space.Related fun written _ => Shapely written.parts) spaces other) :
    Shapely (spacesParts spaces) := by
  refine shapely_of_forall₂ (g := spacesParts) rfl (fun _ _ => rfl) ?_ h
  rintro ⟨root, joins⟩ ⟨root', joins'⟩ ⟨-, hjoins⟩
  exact shapely_of_forall₂ (g := joinsParts) rfl (fun _ _ => rfl) (fun _ _ => id) hjoins

theorem shapely_order {order other : Option (List SortItem)}
    (h : Option.Rel (List.Forall₂ (SortItem.Related fun written _ => Shapely written.parts)) order
      other) : Shapely (orderParts order) := by
  cases h with
  | none => exact shapely_nil
  | some h =>
    refine shapely_of_forall₂ (g := sortItemsParts) rfl (fun _ _ => rfl) ?_ h
    rintro ⟨sorted, collation, ordering⟩ ⟨sorted', collation', ordering'⟩ ⟨hsorted, -⟩
    exact hsorted

/-- All parts of the first phrase have shapes that the grammar reads. -/
def shapeliness : Congruence where
  expression written _ := Shapely written.parts
  predicate written _ := Shapely written.parts
  selection written _ := Shapely written.parts
  join written _ := Shapely written.parts
  query written _ := Shapely written.parts
  literal h := shapely_cons.mpr ⟨h.shaped, shapely_nil⟩
  parameter _ := shapely_cons.mpr ⟨trivial, shapely_nil⟩
  path _ := shapely_cons.mpr ⟨trivial, shapely_nil⟩
  indexed _ _ h := shapely_cons.mpr ⟨trivial, h⟩
  treated _ _ _ := shapely_cons.mpr ⟨trivial, shapely_nil⟩
  mapFunction _ _ := shapely_cons.mpr ⟨trivial, shapely_nil⟩
  arithmetic _ hleft hright :=
    shapely_cons.mpr ⟨rfl, shapely_pair hleft hright⟩
  concatenation hleft hright :=
    shapely_cons.mpr ⟨rfl, shapely_pair hleft hright⟩
  unary _ h := shapely_cons.mpr ⟨trivial, h⟩
  grouped h := shapely_cons.mpr ⟨trivial, h⟩
  call _ _ _ _ h := shapely_cons.mpr ⟨trivial, shapely_expressions h⟩
  simpleCase hoperand hwhens hotherwise := by
    refine shapely_cons.mpr ⟨trivial, shapely_append.mpr ⟨shapely_append.mpr ⟨hoperand, ?_⟩,
      shapely_optional hotherwise⟩⟩
    refine shapely_of_forall₂ (g := simpleWhensParts) rfl (fun _ _ => rfl) ?_ hwhens
    rintro ⟨value, result⟩ ⟨value', result'⟩ ⟨hvalue, hresult⟩
    exact shapely_append.mpr ⟨hvalue, hresult⟩
  searchedCase hwhens hotherwise := by
    refine shapely_cons.mpr ⟨trivial, shapely_append.mpr ⟨?_, shapely_optional hotherwise⟩⟩
    refine shapely_of_forall₂ (g := searchedWhensParts) rfl (fun _ _ => rfl) ?_ hwhens
    rintro ⟨condition, result⟩ ⟨condition', result'⟩ ⟨hcondition, hresult⟩
    exact shapely_append.mpr ⟨hcondition, hresult⟩
  subquery h := shapely_cons.mpr ⟨trivial, h⟩
  and hleft hright := shapely_cons.mpr ⟨trivial, shapely_append.mpr ⟨hleft, hright⟩⟩
  or hleft hright := shapely_cons.mpr ⟨trivial, shapely_append.mpr ⟨hleft, hright⟩⟩
  not h := shapely_cons.mpr ⟨trivial, h⟩
  groupedPredicate h := shapely_cons.mpr ⟨trivial, h⟩
  comparison _ hleft hright := shapely_cons.mpr ⟨trivial, shapely_append.mpr ⟨hleft, hright⟩⟩
  between _ htested hlower hupper :=
    shapely_cons.mpr ⟨trivial,
      shapely_append.mpr ⟨shapely_append.mpr ⟨htested, hlower⟩, hupper⟩⟩
  like _ hmatched hpattern hescape :=
    shapely_cons.mpr ⟨trivial,
      shapely_append.mpr ⟨shapely_append.mpr ⟨hmatched, hpattern⟩, shapely_optional hescape⟩⟩
  inList _ htested hitems :=
    shapely_cons.mpr ⟨trivial, shapely_append.mpr ⟨htested, shapely_expressions hitems⟩⟩
  inSubquery _ htested h :=
    shapely_cons.mpr ⟨rfl,
      shapely_append.mpr ⟨htested, shapely_cons.mpr ⟨trivial, h⟩⟩⟩
  isNull _ h := shapely_cons.mpr ⟨trivial, h⟩
  isEmpty _ h := shapely_cons.mpr ⟨trivial, h⟩
  memberOf _ helement hcollection :=
    shapely_cons.mpr ⟨trivial, shapely_append.mpr ⟨helement, hcollection⟩⟩
  existence _ h := shapely_cons.mpr ⟨trivial, h⟩
  instantiation _ h := shapely_items h
  object _ := shapely_nil
  selected h := h
  cross _ := shapely_nil
  collection _ _ := shapely_nil
  qualified _ _ _ _ hcondition := shapely_restriction hcondition
  clauses hselect hspaces hrestriction horder hlimit hoffset :=
    shapely_append.mpr ⟨shapely_append.mpr ⟨shapely_append.mpr ⟨shapely_append.mpr
      ⟨shapely_append.mpr ⟨shapely_clause hselect, shapely_spaces hspaces⟩,
        shapely_restriction hrestriction⟩, shapely_order horder⟩, shapely_optional hlimit⟩,
      shapely_optional hoffset⟩

/-- Every part of a statement that is read has a shape that the grammar reads. -/
theorem Statement.ofText_shaped {source : String} {phrase : Statement}
    (h : Statement.ofText source = .ok phrase) : Shapely phrase.parts := by
  obtain ⟨small, hrelated⟩ := Statement.related_of_read shapeliness h
  cases hrelated with
  | select hquery => exact hquery
  | update htarget hassignments hrestriction =>
    refine shapely_append.mpr ⟨?_, shapely_restriction hrestriction⟩
    exact shapely_of_forall₂ rfl (fun _ _ => List.flatMap_cons) (fun _ _ h => h.2) hassignments
  | delete htarget hrestriction => exact shapely_restriction hrestriction
  | insert target stateFields hquery => exact hquery

/-- Only two of the shapes that an interpretation rejects are read. -/
theorem Part.Shaped.misshapes {part : Part} {fault : Interpretation.Fault} (h : part.Shaped)
    (hfault : part.Misshapes fault) :
    (fault = .existenceOperand ∧ ∃ operand negated,
        part = .predicate (.existence operand negated) ∧ operand.isSubquery = false)
      ∨ ∃ function count name distinct star arguments,
        fault = .argumentCount function count
          ∧ part = .expression (.call name false distinct star arguments)
          ∧ CollectionFunction.ofName? name = some function ∧ arguments.length = count
          ∧ count ≠ 1 := by
  unfold Misshapes at hfault
  split at hfault
  · exact absurd (hfault.1.symm.trans h) hfault.2
  · exact absurd (hfault.1.symm.trans h) hfault.2
  · exact .inr ⟨_, _, _, _, _, _, rfl, rfl, hfault⟩
  · rename_i token text
    obtain ⟨hkind, rfl, hlength⟩ := hfault
    exact absurd (h hkind) hlength
  · exact absurd (h.symm.trans hfault) (by decide)
  · exact .inl ⟨rfl, _, _, rfl, hfault⟩
  · exact hfault.elim

end Phrase

open Interpretation

namespace Interpretation.Fault

/-- What is reported about a shape is a fault about a shape, if it is no internal one. -/
theorem isShape_of_report {fault : Fault} {code : Report.Code} {message : String}
    (h : fault.isInternal = false) (hreport : fault.report = .shape code message) :
    fault.isShape = true := by
  cases fault with
  | operandCount form count => rfl
  | argumentCount function count => rfl
  | existenceOperand => rfl
  | membershipOperand => rfl
  | implicitJoinFetched path => cases h
  | implicitJoinAliased path => cases h
  | literal problem =>
    cases problem with
    | characterCount text => rfl
    | _ => cases hreport
  | strict breach => cases breach <;> cases hreport
  | _ => cases hreport

end Interpretation.Fault

/-- A text without meaning is rejected by the grammar, or the phrase that it is read as fails. -/
theorem interpret_error {text : String} {schema : Schema} {error : Report.QueryError}
    (h : interpret text schema = .error error) :
    (∃ source rest, error = Grammar.rejection source rest)
      ∨ ∃ phrase fault, Phrase.Statement.ofText text = .ok phrase
        ∧ interpretPhrase phrase schema = .error fault ∧ fault.report = error := by
  unfold interpret at h
  cases hread : Phrase.Statement.ofText text with
  | error rejected =>
    rw [hread] at h
    cases h
    unfold Phrase.Statement.ofText Grammar.Reader.whole at hread
    dsimp only at hread
    split at hread
    · split at hread
      · cases hread
      · cases hread
        exact .inl ⟨_, _, rfl⟩
    · cases hread
      exact .inl ⟨_, _, rfl⟩
  | ok phrase =>
    rw [hread] at h
    cases hmeaning : interpretPhrase phrase schema with
    | ok meaning =>
      simp only [bind, Except.bind, hmeaning, Except.mapError] at h
      cases h
    | error fault =>
      simp only [bind, Except.bind, hmeaning, Except.mapError] at h
      exact .inr ⟨phrase, fault, rfl, hmeaning, Except.error.inj h⟩

theorem rejection_ne_shape (source rest : List Char) (code : Report.Code) (message : String) :
    Grammar.rejection source rest ≠ .shape code message := by
  unfold Grammar.rejection
  dsimp only
  split
  · nofun
  · nofun

/-- If a text has no meaning because of its shape, it has an `exists` before something that is no
query in parentheses, or a call of a function of a collection with more or fewer arguments than
one. No operator has a wrong number of operands and no character literal a wrong length. -/
theorem interpret_shape {text : String} {schema : Schema} {code : Report.Code} {message : String}
    (h : interpret text schema = .error (.shape code message)) :
    (∃ phrase, Phrase.Statement.ofText text = .ok phrase
      ∧ ((code = .unexpectedShape ∧ ∃ operand negated,
            .predicate (.existence operand negated) ∈ phrase.parts
              ∧ operand.isSubquery = false)
        ∨ (code = .operandCount ∧ ∃ function name distinct star arguments,
            .expression (.call name false distinct star arguments) ∈ phrase.parts
              ∧ CollectionFunction.ofName? name = some function ∧ arguments.length ≠ 1
              ∧ message = (Fault.argumentCount function arguments.length).report.message)))
      ∧ code ≠ .malformedCharacter
      ∧ ∀ form count, (Fault.operandCount form count).report ≠ .shape code message := by
  obtain ⟨phrase, fault, hread, hfails, hreport⟩ :
      ∃ phrase fault, Phrase.Statement.ofText text = .ok phrase
        ∧ interpretPhrase phrase schema = .error fault
        ∧ fault.report = .shape code message := by
    rcases interpret_error h with ⟨source, rest, hrejected⟩ | hfails
    · exact absurd hrejected.symm (rejection_ne_shape source rest code message)
    · exact hfails
  have hblamed := interpretPhrase_blamed hfails
  obtain ⟨part, hpart, hmisshapes⟩ :=
    hblamed.part (Fault.isShape_of_report hblamed.regular hreport)
  have hshaped := Phrase.Statement.ofText_shaped hread part hpart
  rcases hshaped.misshapes hmisshapes with ⟨rfl, operand, negated, rfl, hoperand⟩
    | ⟨function, count, name, distinct, star, arguments, rfl, rfl, hname, hlength, hne⟩
  · cases hreport
    exact ⟨⟨phrase, hread, .inl ⟨rfl, operand, negated, hpart, hoperand⟩⟩, by decide, nofun⟩
  · cases hreport
    refine ⟨⟨phrase, hread, .inr ⟨rfl, function, name, distinct, star, arguments, hpart, hname,
      hlength ▸ hne, ?_⟩⟩, by decide, ?_⟩
    · rw [hlength]
      rfl
    · intro form found
      simp only [Fault.report, toString, String.append_assoc]
      exact Fault.shape_ne (Fault.not_prefix_append (by decide) (by decide))

/-- The error of an outcome. -/
def error? {α : Type} : Except Report.QueryError α → Option Report.QueryError
  | .error error => some error
  | .ok _ => none

theorem eq_error_of_error? {α : Type} {outcome : Except Report.QueryError α}
    {error : Report.QueryError} (h : error? outcome = some error) : outcome = .error error := by
  cases outcome with
  | error found => exact congrArg Except.error (Option.some.inj h)
  | ok value => cases h

/-- The front of a library is no query. -/
def existsText : String := "delete from Library l where exists l.front"

/-- The size of nothing. -/
def sizeText : String := "select size() from Library l"

theorem interpret_shape_shelves :
    (interpret existsText shelving.schema
          = .error (.shape .unexpectedShape "Expecting a subquery as EXISTS operand")
        ∧ ∃ phrase operand negated, Phrase.Statement.ofText existsText = .ok phrase
          ∧ .predicate (.existence operand negated) ∈ phrase.parts
          ∧ operand.isSubquery = false)
      ∧ interpret sizeText shelving.schema
          = .error (.shape .operandCount "Expecting 1 argument to size(), found 0")
        ∧ ∃ phrase function name distinct star arguments,
          Phrase.Statement.ofText sizeText = .ok phrase
            ∧ .expression (.call name false distinct star arguments) ∈ phrase.parts
            ∧ CollectionFunction.ofName? name = some function ∧ arguments.length ≠ 1 := by
  have hexists : interpret existsText shelving.schema
      = .error (.shape .unexpectedShape "Expecting a subquery as EXISTS operand") :=
    eq_error_of_error? (by decide +kernel)
  have hsize : interpret sizeText shelving.schema
      = .error (.shape .operandCount "Expecting 1 argument to size(), found 0") :=
    eq_error_of_error? (by decide +kernel)
  obtain ⟨⟨first, hfirst, hfirstShape⟩, -⟩ := interpret_shape hexists
  obtain ⟨⟨second, hsecond, hsecondShape⟩, -⟩ := interpret_shape hsize
  refine ⟨⟨hexists, ?_⟩, hsize, ?_⟩
  · rcases hfirstShape with ⟨-, operand, negated, hmem, hoperand⟩ | ⟨hcode, -⟩
    · exact ⟨first, operand, negated, hfirst, hmem, hoperand⟩
    · exact absurd hcode (by decide)
  · rcases hsecondShape with
      ⟨hcode, -⟩ | ⟨-, function, name, distinct, star, arguments, hmem, hname, hne, -⟩
    · exact absurd hcode (by decide)
    · exact ⟨second, function, name, distinct, star, arguments, hsecond, hmem, hname, hne⟩

end EntityQuery

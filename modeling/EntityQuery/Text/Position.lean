/-!
# Positions in a text

Offsets count the bytes of the UTF-8 form of a text; lines and columns start at one, and columns
count characters.

* `lineColumn`: the line and column of an offset. An offset inside a character belongs to the
  column after it, an offset past the end to the end of the text.
-/

namespace EntityQuery.Text

/-- The number of bytes of the UTF-8 form. -/
def utf8Length : List Char → Nat
  | [] => 0
  | c :: text => c.utf8Size + utf8Length text

@[simp] theorem utf8Length_nil : utf8Length [] = 0 := rfl

@[simp] theorem utf8Length_cons (c : Char) (text : List Char) :
    utf8Length (c :: text) = c.utf8Size + utf8Length text := rfl

@[simp] theorem utf8Length_append (a b : List Char) :
    utf8Length (a ++ b) = utf8Length a + utf8Length b := by
  induction a with
  | nil => simp
  | cons c a ih => simp [ih, Nat.add_assoc]

/-- The line and column reached from `(line, column)` after the characters that start before
`offset`, the first of them starting at `start`. -/
def advance (offset : Nat) : (start line column : Nat) → List Char → Nat × Nat
  | _, line, column, [] => (line, column)
  | start, line, column, c :: text =>
    if offset ≤ start then (line, column)
    else if c = '\n' then advance offset (start + c.utf8Size) (line + 1) 1 text
    else advance offset (start + c.utf8Size) line (column + 1) text

/-- The line and column of an offset. -/
def lineColumn (text : List Char) (offset : Nat) : Nat × Nat := advance offset 0 1 1 text

end EntityQuery.Text

namespace EntityQuery

/-- A range of offsets, the end excluded. -/
structure Span where
  start : Nat
  stop : Nat
  deriving DecidableEq, Repr

namespace Span

/-- The range of one byte. -/
def single (offset : Nat) : Span := ⟨offset, offset + 1⟩

def length (span : Span) : Nat := span.stop - span.start

def isEmpty (span : Span) : Bool := span.stop ≤ span.start

def text (span : Span) : String := s!"{span.start}..{span.stop}"

end Span

/-- A place in a text: the line and column of its start, the offset of its start and its length
in bytes. -/
structure Location where
  line : Nat
  column : Nat
  offset : Nat
  length : Nat
  deriving DecidableEq, Repr

namespace Location

/-- The place that a range of offsets has in a text. -/
def ofSpan (span : Span) (source : List Char) : Location :=
  let place := Text.lineColumn source span.start
  ⟨place.1, place.2, span.start, span.length⟩

def span (location : Location) : Span := ⟨location.offset, location.offset + location.length⟩

def text (location : Location) : String := s!"{location.line}:{location.column}"

@[simp] theorem ofSpan_offset (span : Span) (source : List Char) :
    (ofSpan span source).offset = span.start := rfl

@[simp] theorem ofSpan_length (span : Span) (source : List Char) :
    (ofSpan span source).length = span.length := rfl

theorem span_ofSpan {span : Span} (h : span.start ≤ span.stop) (source : List Char) :
    (ofSpan span source).span = span := by
  cases span
  simp only [Location.span, ofSpan, Span.length, Span.mk.injEq, true_and]
  exact Nat.add_sub_cancel' h

end Location
end EntityQuery

import EntityQuery.Grammar.Statement
import EntityQuery.Report.Error

/-!
# Reading a text

A text is accepted if the grammar reads it up to blanks at its end. Otherwise the report points to
the first character that is not blank from where reading stopped, or to the end of the text.

* `Phrase.Statement.ofText`, `Phrase.Expression.ofText`.
-/

namespace EntityQuery.Grammar

open EntityQuery.Report

/-- The number of characters of a rejected text that a report quotes. -/
def quotedLength : Nat := 20

/-- The report of a text that is rejected where `rest` begins. -/
def rejection (source rest : List Char) : QueryError :=
  let rest := Text.trimStart rest
  let offset := Text.utf8Length source - Text.utf8Length rest
  let location := Location.ofSpan (Span.single offset) source
  let query := String.ofList source
  if rest.isEmpty then
    .rejectedText Code.unexpectedEnd "Unexpected end of input" query (some location)
  else
    let quoted := String.ofList (rest.take quotedLength)
    .rejectedText Code.unexpectedToken s!"Unexpected token near '{quoted}'" query (some location)

/-- The value of a reader that has to read the whole text. -/
def Reader.whole {α : Type} (reader : Reader α) (source : List Char) : Except QueryError α :=
  match reader source with
  | .ok value rest =>
    if (Text.trimStart rest).isEmpty then .ok value else .error (rejection source rest)
  | .fail rest => .error (rejection source rest)

/-- The grammar that no text of the given length exhausts. -/
def forText (source : List Char) : Inner := Inner.ofDepth (source.length + 1)

end EntityQuery.Grammar

namespace EntityQuery.Phrase

/-- The statement that a text is read as. -/
def Statement.ofText (source : String) : Except Report.QueryError Statement :=
  let text := source.toList
  (Grammar.statement (Grammar.forText text)).whole text

/-- The expression that a text is read as. -/
def Expression.ofText (source : String) : Except Report.QueryError Expression :=
  let text := source.toList
  (Grammar.concatenation (Grammar.forText text)).whole text

end EntityQuery.Phrase

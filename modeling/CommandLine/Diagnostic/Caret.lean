import CommandLine.Text.Bytes
import CommandLine.Span
/-!
# CommandLine.Diagnostic.Caret

A line with carets below the part that a span covers.

The span is clamped to the line, each end to the start of the character that it
falls into, and an end before the start counts as the start. Columns and widths
count characters; at least one caret is drawn, so that a span without width stays
visible.
-/

namespace CommandLine

open Text (byteLength cutAtByte)

/-- The number of characters before a span and the number of characters in it. -/
def Span.columns (span : Span) (line : List Char) : Nat × Nat :=
  let (before, rest) := cutAtByte span.start line
  let (inside, _) := cutAtByte (span.stop - byteLength before) rest
  (before.length, inside.length)

/-- A line, and below it carets under the characters of a span. -/
def caretLines (line : String) (span : Span) : String :=
  let (column, width) := span.columns line.toList
  line ++ "\n" ++ String.ofList (List.replicate column ' ')
    ++ String.ofList (List.replicate (max 1 width) '^')

end CommandLine

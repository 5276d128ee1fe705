import CommandLine.Json.Value
/-!
# CommandLine.Span

Byte ranges of a line.

A span may come from outside, in a diagnostic read from JSON, and is then taken
as it is. So the type asks nothing of the two offsets; `Span.between?` is the way
to a span that does not end before it starts.

The width of any other span lies below zero, and offsets are machine words. What
comes of that is settled when the program is built: either such a width is an error
(`Span.length?`), or it wraps round (`Span.length`).
-/

namespace CommandLine

/-- A byte range of a line: from `start` on, up to and without `stop`. -/
structure Span where
  start : Nat
  stop : Nat
  deriving Repr, DecidableEq, Inhabited

namespace Span

/-- Two offsets of which the second lies before the first. -/
structure Inverted where
  start : Nat
  stop : Nat
  deriving Repr, DecidableEq

/-- What is wrong with the offsets. -/
def Inverted.message (e : Inverted) : String :=
  "Span end (" ++ toString e.stop ++ ") < start (" ++ toString e.start ++ ")"

/-- The span between two offsets, if they are in order. -/
def between? (start stop : Nat) : Except Inverted Span :=
  if stop < start then .error ⟨start, stop⟩ else .ok ⟨start, stop⟩

/-- The span without width at an offset. -/
def empty (offset : Nat) : Span := ⟨offset, offset⟩

/-- The width in bytes, if it does not lie below zero. -/
def length? (s : Span) : Option Nat := if s.stop < s.start then none else some (s.stop - s.start)

/-- The width in bytes, wrapped round if it lies below zero. -/
def length (s : Span) : Nat := (s.stop.toUInt64 - s.start.toUInt64).toNat

/-- Whether the span has no width. -/
def isEmpty (s : Span) : Bool := s.start == s.stop

/-- The range as messages give it. -/
def text (s : Span) : String := toString s.start ++ ".." ++ toString s.stop

/-- The span as a JSON object. -/
def toJson (s : Span) : Json.Value :=
  .object [("start", .natural s.start), ("end", .natural s.stop)]

end Span

end CommandLine

import CommandLine.Diagnostic.Basic
import CommandLine.Json.Record
/-!
# CommandLine.Diagnostic.Reader

Diagnostics from JSON texts.

Members with other names are skipped. The span and the context may be missing or `null`;
the two offsets of a span are taken as they are.
-/

namespace CommandLine

open Json (Reader Record Field Problem)

/-- A field that was needed and may have been missing. -/
def neededField {α : Type} (name : String) (value : Option α) : Except Problem α :=
  value.elim (.error (.missingField name)) .ok

namespace Span

/-- The offsets of a span that were read so far. -/
structure Partial where
  start : Option Nat := none
  stop : Option Nat := none

/-- A span as a JSON record. -/
def record : Record Partial Span where
  name := "struct Span"
  fields := [
    .of "start" Reader.natural fun n p => { p with start := some n },
    .of "end" Reader.natural fun n p => { p with stop := some n }]
  start := {}
  strict := false
  complete := true
  finish p := do
    return ⟨← neededField "start" p.start, ← neededField "end" p.stop⟩

end Span

/-- Reads the name of a severity. -/
def Severity.reader : Reader Severity :=
  Reader.variant (Severity.all.map fun severity => (severity.name, severity))

namespace Diagnostic

/-- The parts of a diagnostic that were read so far. -/
structure Partial where
  id : Option String := none
  severity : Option Severity := none
  message : Option String := none
  span : Option Span := none
  context : Option (SortedMap String) := none

/-- A diagnostic as a JSON record. -/
def record : Record Partial Diagnostic where
  name := "struct Diagnostic"
  fields := [
    .of "id" Reader.text fun s p => { p with id := some s },
    .of "severity" Severity.reader fun severity p => { p with severity := some severity },
    .of "message" Reader.text fun s p => { p with message := some s },
    .of "span" (Reader.optional Span.record.reader) fun span p => { p with span },
    .of "context" (Reader.optional (Reader.sortedMap Reader.text))
      fun context p => { p with context }]
  start := {}
  strict := false
  complete := true
  finish p := do
    return {
      id := ← neededField "id" p.id
      severity := ← neededField "severity" p.severity
      message := ← neededField "message" p.message
      span := p.span
      context := p.context }

/-- The diagnostic that a text holds. -/
def parse (text : String) : Except Json.Error Diagnostic := record.reader.parse text

end Diagnostic

end CommandLine

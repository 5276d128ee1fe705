import CommandLine.Diagnostic.Code
import CommandLine.SortedMap
import CommandLine.Span
/-!
# CommandLine.Diagnostic.Basic

A diagnostic: what is wrong, how bad it is, where, and facts for tools.
-/

namespace CommandLine

/-- How bad a fault is. -/
inductive Severity where
  | error
  | warn
  | info
  deriving Repr, DecidableEq

namespace Severity

/-- The severities in the order in which messages list them. -/
def all : List Severity := [error, warn, info]

/-- The name of a severity. -/
def name : Severity → String
  | error => "error"
  | warn => "warn"
  | info => "info"

end Severity

/-- A record of one fault. The identifier is usually the text of a `Code`, but any
string will do; `context` holds facts for tools by name. -/
structure Diagnostic where
  id : String
  severity : Severity
  message : String
  span : Option Span
  context : Option (SortedMap String)
  deriving DecidableEq

namespace Diagnostic

/-- The severity, the identifier and the message on one line. -/
def headline (d : Diagnostic) : String :=
  d.severity.name ++ "[" ++ d.id ++ "]: " ++ d.message

/-- The explanation for the identifier, if it is the text of a code. -/
def explanation? (d : Diagnostic) : Option String := Code.explain? d.id

/-- The value of a context entry. -/
def contextValue? (d : Diagnostic) (key : String) : Option String :=
  d.context.bind (·.get? key)

/-- The context as a JSON object, keys in order. -/
def contextToJson (context : SortedMap String) : Json.Value :=
  .object (context.entries.map fun (key, value) => (key, .text value))

/-- The diagnostic as a JSON object; an absent span or context is left out. -/
def toJson (d : Diagnostic) : Json.Value :=
  .object <|
    [("id", .text d.id), ("severity", .text d.severity.name), ("message", .text d.message)]
      ++ (d.span.map fun span => ("span", span.toJson)).toList
      ++ (d.context.map fun context => ("context", contextToJson context)).toList

end Diagnostic

end CommandLine

import CommandLine.Binding
import CommandLine.Diagnostic.Basic
import CommandLine.Diagnostic.Caret
import CommandLine.Tree.Parser
/-!
# CommandLine.AssemblyError

Everything that can go wrong between a line and its command, and how it is told: in
short, in full, as a diagnostic, and as a report with carets.
-/

namespace CommandLine

/-- Why a line has no command. -/
inductive AssemblyError where
  | lexical (e : LexicalError)
  | grammatical (e : GrammarError)
  | resolution (e : ResolutionError)
  | validation (e : ValidationError)
  deriving Repr, DecidableEq

namespace AssemblyError

/-- Whether the line itself was not understood. -/
def isSyntax : AssemblyError → Bool
  | lexical _ | grammatical _ => true
  | resolution _ | validation _ => false

/-- The code of the fault. -/
def code : AssemblyError → Code
  | lexical e =>
    match e.cause with
    | .unexpectedCharacter => .unexpectedCharacter
    | .unterminatedText => .unterminatedText
  | grammatical _ => .unexpectedToken
  | resolution (.unknown _) => .unknownCommand
  | resolution (.ambiguous _ _) => .ambiguousCommand
  | validation _ => .invalidShape

/-- The line, where the fault lies in its text. -/
def line? : AssemblyError → Option String
  | lexical e => some e.line
  | grammatical e => some e.line
  | resolution _ | validation _ => none

/-- The part of the line at fault, where the fault lies in its text. -/
def span? : AssemblyError → Option Span
  | lexical e => some e.span
  | grammatical e => some e.found.span
  | resolution _ | validation _ => none

/-- What is wrong, without the place. -/
def summary : AssemblyError → String
  | lexical e => e.summary
  | grammatical e => e.summary
  | resolution e => e.message
  | validation e => e.message

/-- What is wrong, with the place. -/
def message : AssemblyError → String
  | lexical e => e.message
  | grammatical e => e.message
  | resolution e => e.message
  | validation e => e.message

/-- The facts about the fault that tools may want, by name. -/
def context : AssemblyError → List (String × String)
  | lexical e => [("fragment", e.fragment)]
  | grammatical e =>
    [("expected", e.expectedList), ("found", e.found.kind.name), ("rules", e.rulePath)]
  | resolution (.unknown imperative) => [("imperative", imperative)]
  | resolution (.ambiguous imperative candidates) =>
    [("candidates", ", ".intercalate candidates), ("imperative", imperative)]
  | validation e => [("command", e.command)]

/-- The fault as a diagnostic. -/
def toDiagnostic (e : AssemblyError) : Diagnostic where
  id := e.code.id
  severity := .error
  message := e.summary
  span := e.span?
  context := some (.ofList e.context)

/-- The first line of a report. -/
def headline (e : AssemblyError) : String := "error[" ++ e.code.id ++ "]: " ++ e.summary

/-- What follows the carets in a report: for a fault of grammar, the rules and the
kinds of tokens. -/
def grammarNote : AssemblyError → String
  | grammatical e =>
    "\nrule: " ++ e.rulePath ++ "\nexpected: " ++ e.expectedList ++ ", found: "
      ++ e.found.kind.name
  | _ => ""

/-- The fault for people: a headline, the line with carets where the fault lies in
its text, and a note on the grammar. -/
def report (e : AssemblyError) : String :=
  let carets :=
    match e.line?, e.span? with
    | some line, some span => "\n" ++ caretLines line span
    | _, _ => ""
  e.headline ++ carets ++ e.grammarNote

end AssemblyError

end CommandLine

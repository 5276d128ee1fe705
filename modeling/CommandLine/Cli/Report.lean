import CommandLine.Diagnostic.Basic
import CommandLine.Json.Sorted
import CommandLine.Text.Quoted
import CommandLine.Token.Lexer
/-!
# CommandLine.Cli.Report

How the program prints what it has to say: diagnostics for people and for programs, and
tokens for people.

Diagnostics that have a place in the line are drawn for people. What is drawn of one is a
`Picture`; how it is drawn is left to a function on pictures, such as `Picture.compact`.
-/

namespace CommandLine.Cli

/-- A text with blanks behind it, up to a width in characters. -/
def padded (width : Nat) (s : String) : String :=
  s ++ String.ofList (List.replicate (width - s.length) ' ')

/-- The tokens for people, a line each. -/
def tokenLines (s : TokenStream) : String :=
  String.join <| s.tokens.map fun t =>
    padded 9 t.kind.name ++ " " ++ padded 16 (Text.quoted t.literal) ++ " " ++ t.span.text ++ "\n"

/-! ### Diagnostics for people -/

/-- The facts of a diagnostic on one line. -/
def contextNote (context : SortedMap String) : String :=
  ", ".intercalate (context.entries.map fun (key, value) => key ++ "=" ++ value)

/-- A diagnostic without a place in the line. -/
def plainReport (d : Diagnostic) : String :=
  let note :=
    match d.context with
    | some context =>
      if context.isEmpty then "" else "  = note: " ++ contextNote context ++ "\n"
    | none => ""
  let help := d.explanation?.elim "" fun text => "  = help: " ++ text ++ "\n"
  d.headline ++ "\n" ++ note ++ help

/-- What is said about the marked part of the line: what could stand there, or else what is
wrong with it. -/
def markLabel (d : Diagnostic) : String :=
  (d.contextValue? "expected").elim d.message ("expected " ++ ·)

/-- The name of the line in what is drawn of it. -/
def sourceName : String := "<input>"

/-- What is to be drawn of a diagnostic that has a place in its line. -/
structure Picture where
  source : String
  /-- The line, with a blank behind it for marks at its end. -/
  text : String
  severity : Severity
  id : String
  message : String
  /-- The bytes of the text from which and up to which it is marked. -/
  start : Nat
  stop : Nat
  label : String
  note : Option String
  help : Option String
  deriving Repr, DecidableEq

/-- What is to be drawn of a diagnostic at a place. The mark stays within the line, and one
without width is made one byte wide. -/
def Picture.ofDiagnostic (line : String) (d : Diagnostic) (span : Span) : Picture :=
  let start := min span.start line.utf8ByteSize
  let stop := max start (min span.stop line.utf8ByteSize)
  { source := sourceName
    text := line ++ " "
    severity := d.severity
    id := d.id
    message := d.message
    start
    stop := if start = stop then stop + 1 else stop
    label := markLabel d
    note := (d.contextValue? "rules").map ("while parsing " ++ ·)
    help := d.explanation? }

/-- A diagnostic about a line, for people. `draw` draws those that have a place in it. -/
def prettyReport (draw : Picture → String) (line : String) (d : Diagnostic) : String :=
  match d.span with
  | some span => draw (.ofDiagnostic line d span)
  | none => plainReport d

/-! ### The drawing of a picture -/

/-- A text without the blanks at its end. -/
def dropTrailingBlanks (s : String) : String :=
  String.ofList (s.toList.reverse.dropWhile (· = ' ')).reverse

/-- What a severity is called above a line. -/
def severityTitle : Severity → String
  | .error => "Error"
  | .warn => "Warning"
  | .info => "Advice"

/-- The stroke under the marked part of a line: from the middle of the part to its end. -/
def markStroke (start stop : Nat) : String :=
  let middle := (start + stop) / 2
  String.ofList (List.replicate middle ' ' ++ ['╰'] ++ List.replicate (stop - middle) '─')

/-- A picture in characters, without colours: the text with a frame on its left, and the marked
part of it below. -/
def Picture.compact (p : Picture) : String :=
  let below (title : String) (text : Option String) : String :=
    text.elim "" fun text => "   │" ++ title ++ ": " ++ text ++ "\n"
  "[" ++ p.id ++ "] " ++ severityTitle p.severity ++ ": " ++ p.message ++ "\n"
    ++ "   ╭─[ " ++ p.source ++ ":1:" ++ toString (p.start + 1) ++ " ]\n"
    ++ " 1 │" ++ dropTrailingBlanks p.text ++ "\n"
    ++ "   │" ++ markStroke p.start p.stop ++ " " ++ p.label ++ "\n"
    ++ below "Help" p.help ++ below "Note" p.note

/-! ### Objects for programs -/

/-- The object that tells of a line without a command. -/
def assemblyFailure (line : String) (d : Diagnostic) : Json.Value :=
  Json.Value.sorted <| .object [("success", .boolean false), ("error", .text "assembly_failed"),
    ("input", .text line), ("diagnostics", .array [d.toJson])]

/-- The object that tells why the program could not get to work. -/
def commandFailure (message : String) : Json.Value :=
  Json.Value.sorted <| .object [("success", .boolean false), ("error", .text "command_failed"),
    ("message", .text message)]

end CommandLine.Cli

import CommandLine.Cli.Invocation
import CommandLine.Cli.Report
/-!
# CommandLine.Cli.Help

The pages that tell how to use the program and each of its subcommands.
-/

namespace CommandLine.Cli

/-- The name and number of this version. -/
def versionText : String := "cmdlang 0.1.0\n"

/-- What the program is for. -/
def aboutText : String :=
  "cmdlang: tokenize, parse, and decode command lines like `edit 2 +friend /name:\"Ann\"`"

/-- An entry of a page: what can be typed, and what it is for. -/
structure Entry where
  typed : String
  text : String
  deriving Repr, DecidableEq

/-- Entries below each other under a title, their texts in one column. -/
def Entry.list (title : String) (entries : List Entry) : String :=
  let width := (entries.map (·.typed.length)).foldl max 0
  title ++ ":\n" ++ String.join (entries.map fun e =>
    "  " ++ padded width e.typed ++ "  " ++ e.text ++ "\n")

/-- What the subcommands are for. -/
def subcommandEntries : List Entry :=
  [⟨"tokens", "Print the token stream of a command line"⟩,
    ⟨"ast", "Print the syntax tree of a command line"⟩,
    ⟨"parse", "Print the bare command extracted from a command line"⟩,
    ⟨"decode", "Resolve a command line against the built-in commands and print the result"⟩,
    ⟨"bindings", "List built-in keywords, optionally only those a prefix would match"⟩,
    ⟨"explain", "Explain a diagnostic ID (e.g. CMD2001)"⟩,
    ⟨"help", "Print this message or the help of the given subcommand(s)"⟩]

/-- The argument of a subcommand. -/
def argumentEntry : String → Entry
  | "bindings" => ⟨"[PREFIX]", ""⟩
  | "explain" => ⟨"<ID>", ""⟩
  | "help" => ⟨"[COMMAND]...", "Print help for the subcommand(s)"⟩
  | _ => ⟨"[LINE]", "The command line. Read from stdin when omitted or `-`"⟩

/-- The options that may stand before and behind the name of a subcommand. -/
def optionEntries : List Entry :=
  [⟨"    --output <OUTPUT>",
      "Output mode: \"pretty\" for coloured terminal output, \"json\" for machine-readable JSON. "
        ++ "Defaults to \"pretty\" when stdout is a TTY, \"json\" otherwise "
        ++ "[possible values: pretty, json]"⟩,
    ⟨"    --config <CONFIG>", "Path to a decoder configuration JSON file"⟩,
    ⟨"    --exact", "Match imperatives against keywords exactly instead of by prefix"⟩,
    ⟨"-h, --help", "Print help"⟩]

/-- The option that may stand before the name of a subcommand only. -/
def versionEntry : Entry := ⟨"-V, --version", "Print version"⟩

/-- How the program is called. -/
def usageLine : String := "Usage: cmdlang [OPTIONS] <COMMAND>\n"

/-- The page about the program. -/
def programPage : String :=
  aboutText ++ "\n\n" ++ usageLine ++ "\n" ++ Entry.list "Commands" subcommandEntries ++ "\n"
    ++ Entry.list "Options" (optionEntries ++ [versionEntry])

/-- The page about a subcommand. -/
def subcommandPage (e : Entry) : String :=
  let argument := argumentEntry e.typed
  let options := if e.typed = "help" then "" else "[OPTIONS] "
  e.text ++ "\n\nUsage: cmdlang " ++ e.typed ++ " " ++ options ++ argument.typed ++ "\n\n"
    ++ Entry.list "Arguments" [argument]
    ++ if e.typed = "help" then "" else "\n" ++ Entry.list "Options" optionEntries

/-- The page about the program, or about the subcommand of a name. -/
def helpPage (subcommand : Option String) : String :=
  ((subcommand.bind fun name => subcommandEntries.find? (·.typed = name)).map
    subcommandPage).getD programPage

/-- What is said about arguments that ask for nothing. -/
def UsageError.page (e : UsageError) : String :=
  "error: " ++ e.message ++ "\n\n" ++ usageLine ++ "\nFor more information, try '--help'.\n"

end CommandLine.Cli

import CommandLine.AddressBook.Shape
import CommandLine.Assembly
import CommandLine.Cli.Help
import CommandLine.Cli.Line
import CommandLine.Config.Reader
/-!
# CommandLine.Cli.Run

What the program does: from its arguments, standard input and a way to read files to its
exit status and what it prints.

`answer` is all that comes behind the reading of arguments: the options are given, and so are
the format and a way to draw pictures.
-/

namespace CommandLine.Cli

/-- What the program can read. -/
structure Surroundings where
  stdin : List UInt8
  /-- The bytes of the file at a path. -/
  file : String → Except ReadFault (List UInt8)
  /-- Whether what is printed goes to a terminal. -/
  terminal : Bool := false

/-- What the program prints and the status with which it ends. -/
structure Outcome where
  exit : Nat
  stdout : String
  stderr : String
  deriving Repr, DecidableEq

/-- What a request that is met prints. -/
structure Printed where
  stdout : String
  stderr : String := ""
  deriving Repr, DecidableEq

/-! ### Failures -/

/-- Why settings could not be had from a file. -/
inductive ConfigFault where
  | unreadable (fault : ReadFault)
  | invalid (e : Config.LoadError)
  deriving Repr, DecidableEq

/-- Why a request is not met. -/
inductive Failure where
  /-- The settings at a path. -/
  | config (path : String) (fault : ConfigFault)
  /-- The line on standard input. -/
  | input (fault : ReadFault)
  /-- The line itself. -/
  | assembly (line : String) (e : AssemblyError)
  deriving Repr, DecidableEq

/-- What is wrong with the settings at a path, and then its cause, if that is something
apart. -/
def ConfigFault.chain (path : String) : ConfigFault → List String
  | unreadable fault => ["failed to read config " ++ path ++ ": " ++ fault.message, fault.message]
  | invalid (.json e) => [(Config.LoadError.json e).message, e.message]
  | invalid (.field name reason) => [(Config.LoadError.field name reason).message]

/-- What is wrong, from the outermost cause to the innermost one. -/
def Failure.chain : Failure → List String
  | config path fault => ("failed to load config '" ++ path ++ "'") :: fault.chain path
  | input fault => ["failed to read command line from stdin", fault.message]
  | assembly _ e => [e.message]

/-- What is wrong, on one line. -/
def Failure.message (f : Failure) : String := ": ".intercalate f.chain

/-- How a failure ends the program. -/
def Failure.outcome (f : Failure) (draw : Picture → String) (format : Format) : Outcome :=
  match format, f with
  | .json, .assembly line e =>
    ⟨1, (assemblyFailure line e.toDiagnostic).pretty ++ "\n", ""⟩
  | .pretty, .assembly line e => ⟨1, "", prettyReport draw line e.toDiagnostic⟩
  | .json, f => ⟨1, (commandFailure f.message).pretty ++ "\n", ""⟩
  | .pretty, f => ⟨1, "", "error: " ++ f.message ++ "\n"⟩

/-! ### Requests -/

/-- The settings at a path. -/
def loadConfig (w : Surroundings) (path : String) : Except ConfigFault Config := do
  let bytes ← (w.file path).mapError .unreadable
  let text ← (decodeText bytes).mapError .unreadable
  (Config.load text).mapError .invalid

/-- The settings that the options ask for. -/
def resolveConfig (w : Surroundings) (options : Options) : Except Failure Config := do
  let config ←
    match options.config with
    | some path => (loadConfig w path).mapError (.config path)
    | none => .ok Config.default
  return if options.exact then { config with matchRule := .whole } else config

/-- A value on lines of its own. -/
def jsonText (v : Json.Value) : String := v.pretty ++ "\n"

/-- The decoder for the commands of the address book. -/
def decoder (config : Config) : Decoder AddressBook.Command := ⟨AddressBook.table, config⟩

/-- What a line looks like at a stage. Each stage goes its own way from the line on. -/
def showStage (stage : Stage) (config : Config) (format : Format) (line : String) :
    Except AssemblyError String :=
  match stage, format with
  | .tokens, .pretty => (tokenize line).map tokenLines
  | .tokens, .json => (tokenize line).map fun s => jsonText s.toJson
  | .ast, _ => do
    let tokens ← tokenize line
    let tree ← (Tree.ofStream tokens).mapError .grammatical
    return jsonText tree.toJson
  | .parse, _ => (parse line).map fun b => jsonText b.toJson
  | .decode, _ => do
    let bare ← parse line
    let command ← (decoder config).decode bare
    return jsonText command.toJson

/-- The keywords for programs. -/
def bindingsObject (config : Config) (typed : Option String) (keywords : List String) :
    Json.Value :=
  Json.Value.sorted <| .object [("prefix", .ofText? typed),
    ("match_rule", .text config.matchRule.name), ("keywords", .texts keywords)]

/-- Lists the keywords, or those that a typed imperative matches. -/
def showBindings (config : Config) (format : Format) (typed : Option String) : Printed :=
  let keywords :=
    match typed with
    | some typed => (decoder config).candidates typed
    | none => AddressBook.table.keywords
  match format with
  | .json => { stdout := jsonText (bindingsObject config typed keywords) }
  | .pretty =>
    { stdout := String.join (keywords.map (· ++ "\n"))
      stderr :=
        match keywords, typed with
        | [], some typed => "no built-in command matches `" ++ typed ++ "`\n"
        | _, _ => "" }

/-- Explains a code. For people its text is set off by colour. -/
def showExplanation (format : Format) (id : String) : String :=
  match format with
  | .json =>
    jsonText <| Json.Value.sorted <|
      .object [("id", .text id), ("explanation", .ofText? (Code.explain? id))]
  | .pretty =>
    match Code.explain? id with
    | some text => "\x1b[36m" ++ id ++ "\x1b[0m: " ++ text ++ "\n"
    | none => id ++ ": (no explanation available)\n"

/-- Whether a stage needs settings. -/
def Stage.needsConfig : Stage → Bool
  | decode => true
  | tokens | ast | parse => false

/-- Whether a request needs settings. -/
def Request.needsConfig : Request → Bool
  | stage s _ => s.needsConfig
  | bindings _ => true
  | explain _ => false

/-- Whether a request needs the first line of standard input. -/
def Request.needsInput : Request → Bool
  | stage _ line => line.all (· = "-")
  | bindings _ | explain _ => false

/-- Meets a request. Settings are read before standard input, and only where they are
needed. -/
def perform (w : Surroundings) (options : Options) (format : Format) :
    Request → Except Failure Printed
  | .stage stage argument => do
    let config ← if stage.needsConfig then resolveConfig w options else .ok Config.default
    let line ← (readLine argument w.stdin).mapError .input
    let text ← (showStage stage config format line).mapError (.assembly line)
    return { stdout := text }
  | .bindings typed => do
    let config ← resolveConfig w options
    return showBindings config format typed
  | .explain id => return { stdout := showExplanation format id }

/-! ### The program -/

/-- How the program ends and what it prints, once its options and the format are known. -/
def answer (draw : Picture → String) (w : Surroundings) (options : Options) (format : Format)
    (request : Request) : Outcome :=
  match perform w options format request with
  | .ok printed => ⟨0, printed.stdout, printed.stderr⟩
  | .error failure => failure.outcome draw format

/-- What the program does. -/
def run (arguments : List String) (w : Surroundings) : Outcome :=
  match Invocation.ofArguments arguments with
  | .error e => ⟨2, "", e.page⟩
  | .ok .version => ⟨0, versionText, ""⟩
  | .ok (.help subcommand) => ⟨0, helpPage subcommand, ""⟩
  | .ok (.run options request) =>
    answer Picture.compact w options (.resolve options.output w.terminal) request

end CommandLine.Cli

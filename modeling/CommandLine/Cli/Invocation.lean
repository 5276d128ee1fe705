/-!
# CommandLine.Cli.Invocation

What the arguments of the program ask for.

* The options `--output`, `--config` and `--exact` may stand before or behind the name of
  the subcommand; the value of one is the next argument or follows a `=`. Given on both
  sides, the one behind the subcommand counts; twice on one side is an error.
* `--` ends the options. A lone `-` is no option, all else that starts with `-` is one.
* Arguments are looked at from left to right and the first fault is told, so `--version`
  before a subcommand wins over everything behind it.
-/

namespace CommandLine.Cli

/-- The two ways to print results. -/
inductive Format where
  /-- For people. -/
  | pretty
  /-- For programs. -/
  | json
  deriving Repr, DecidableEq

/-- The format of a name. -/
def Format.ofName? : String → Option Format
  | "pretty" => some pretty
  | "json" => some json
  | _ => none

/-- The format that is used: the one that is asked for, or else the one for people if results go
to a terminal. -/
def Format.resolve (asked : Option Format) (terminal : Bool) : Format :=
  asked.getD (if terminal then pretty else json)

/-- How far the line is taken. -/
inductive Stage where
  | tokens
  | ast
  | parse
  | decode
  deriving Repr, DecidableEq

/-- What the program is asked to do. -/
inductive Request where
  /-- Take a line to a stage and show what comes out. Without a line, or with `-` in its
  place, it is read from standard input. -/
  | stage (stage : Stage) (line : Option String)
  /-- List the keywords, or those that a typed imperative matches. -/
  | bindings (typed : Option String)
  /-- Explain a code. -/
  | explain (id : String)
  deriving Repr, DecidableEq

/-- The options of one side of the subcommand. -/
structure Options where
  output : Option Format := none
  config : Option String := none
  exact : Bool := false
  deriving Repr, DecidableEq

/-- The options of both sides. -/
def Options.merge (outer inner : Options) : Options where
  output := inner.output.or outer.output
  config := inner.config.or outer.config
  exact := inner.exact || outer.exact

/-- What the arguments ask for. -/
inductive Invocation where
  | run (options : Options) (request : Request)
  | version
  /-- A page about the program, or about one of its subcommands. -/
  | help (subcommand : Option String)
  deriving Repr, DecidableEq

/-- What is wrong with the arguments. -/
inductive UsageError where
  | missingSubcommand
  | unknownSubcommand (name : String)
  | unknownOption (argument : String)
  | repeatedOption (name : String)
  | missingValue (option : String)
  | invalidValue (option value : String)
  | unexpectedValue (option : String)
  | missingArgument (name : String)
  | unexpectedArgument (argument : String)
  deriving Repr, DecidableEq

/-- What is wrong, in words. -/
def UsageError.message : UsageError → String
  | missingSubcommand => "a subcommand is required"
  | unknownSubcommand name => "unknown subcommand '" ++ name ++ "'"
  | unknownOption argument => "unexpected argument '" ++ argument ++ "'"
  | repeatedOption name => "'" ++ name ++ "' cannot be used multiple times"
  | missingValue option => "a value is required for '" ++ option ++ "'"
  | invalidValue option value => "invalid value '" ++ value ++ "' for '" ++ option ++ "'"
  | unexpectedValue option => "'" ++ option ++ "' takes no value"
  | missingArgument name => "missing argument " ++ name
  | unexpectedArgument argument => "unexpected argument '" ++ argument ++ "'"

/-! ### Single arguments -/

/-- The form of an argument. -/
inductive Argument where
  /-- The two dashes that end the options. -/
  | separator
  /-- Two dashes and a name, with what follows the first `=` if there is one. -/
  | long (name : String) (value : Option String)
  /-- One dash and more. -/
  | short (first : Char)
  /-- No option. -/
  | plain
  deriving Repr, DecidableEq

/-- What follows the first `=`, if there is one, and what precedes it. -/
def splitAssignment (s : List Char) : String × Option String :=
  let name := s.takeWhile (· ≠ '=')
  (String.ofList name, (s.dropWhile (· ≠ '=')).tail?.map String.ofList)

/-- The form of an argument. -/
def Argument.classify (argument : String) : Argument :=
  match argument.toList with
  | ['-', '-'] => separator
  | '-' :: '-' :: rest => let (name, value) := splitAssignment rest; long name value
  | '-' :: c :: _ => short c
  | _ => plain

/-- An option with a value. -/
inductive Valued where
  | output
  | config
  deriving Repr, DecidableEq

/-- The name of an option with a value. -/
def Valued.name : Valued → String
  | output => "--output"
  | config => "--config"

namespace Options

/-- Sets an option with a value. -/
def set (o : Options) (option : Valued) (value : String) : Except UsageError Options :=
  match option with
  | .output =>
    match Format.ofName? value with
    | none => .error (.invalidValue option.name value)
    | some format =>
      if o.output.isSome then .error (.repeatedOption option.name)
      else .ok { o with output := some format }
  | .config =>
    if o.config.isSome then .error (.repeatedOption option.name)
    else .ok { o with config := some value }

/-- Sets an option from a long argument. If its value is the next argument, the options are
as before and the option comes with them. -/
def setLong (o : Options) (name : String) (value : Option String) :
    Except UsageError (Options × Option Valued) :=
  match name, value with
  | "output", some value => (o.set .output value).map fun o => (o, none)
  | "output", none => .ok (o, some .output)
  | "config", some value => (o.set .config value).map fun o => (o, none)
  | "config", none => .ok (o, some .config)
  | "exact", some _ => .error (.unexpectedValue "--exact")
  | "exact", none =>
    if o.exact then .error (.repeatedOption "--exact") else .ok ({ o with exact := true }, none)
  | _, _ => .error (.unknownOption ("--" ++ name))

end Options

/-! ### All arguments -/

/-- The options and the argument behind a subcommand. -/
structure Tail where
  options : Options := {}
  argument : Option String := none
  deriving Repr, DecidableEq

/-- Adds an argument that is no option. -/
def Tail.add (t : Tail) (argument : String) : Except UsageError Tail :=
  if t.argument.isSome then .error (.unexpectedArgument argument)
  else .ok { t with argument := some argument }

/-- Reads the arguments behind a subcommand. `pending` is an option whose value comes next.
There is no tail if help is asked for. -/
def readTail (t : Tail) (pending : Option Valued) :
    List String → Except UsageError (Option Tail)
  | [] =>
    match pending with
    | some option => .error (.missingValue option.name)
    | none => .ok (some t)
  | argument :: rest =>
    match Argument.classify argument, pending with
    | .plain, some option => do
      let options ← t.options.set option argument
      readTail { t with options } none rest
    | _, some option => .error (.missingValue option.name)
    | .plain, none => do
      let t ← t.add argument
      readTail t none rest
    | .separator, none => (rest.foldlM Tail.add t).map some
    | .long "help" none, none => .ok none
    | .short 'h', none => .ok none
    | .long name value, none => do
      let (options, pending) ← t.options.setLong name value
      readTail { t with options } pending rest
    | .short _, none => .error (.unknownOption argument)

/-- The names of the subcommands. -/
def subcommands : List String :=
  ["tokens", "ast", "parse", "decode", "bindings", "explain", "help"]

/-- The request of a subcommand with its argument. -/
def Request.of (name : String) (argument : Option String) : Except UsageError Request :=
  match name with
  | "tokens" => .ok (.stage .tokens argument)
  | "ast" => .ok (.stage .ast argument)
  | "parse" => .ok (.stage .parse argument)
  | "decode" => .ok (.stage .decode argument)
  | "bindings" => .ok (.bindings argument)
  | "explain" =>
    match argument with
    | some id => .ok (.explain id)
    | none => .error (.missingArgument "ID")
  | _ => .error (.unknownSubcommand name)

/-- Reads the names of the subcommands that help is asked about: one at most. -/
def readHelp : List String → Except UsageError Invocation
  | [] => .ok (.help none)
  | [name] =>
    if name ∈ subcommands then .ok (.help (some name)) else .error (.unknownSubcommand name)
  | _ :: name :: _ => .error (.unknownSubcommand name)

/-- Reads the arguments from a subcommand on. -/
def readSubcommand (outer : Options) (name : String) (rest : List String) :
    Except UsageError Invocation := do
  if name = "help" then readHelp rest
  else if name ∉ subcommands then .error (.unknownSubcommand name)
  else
    match ← readTail {} none rest with
    | some t => return .run (outer.merge t.options) (← Request.of name t.argument)
    | none => return .help (some name)

/-- Reads all arguments. `pending` is an option whose value comes next. -/
def readArguments (o : Options) (pending : Option Valued) :
    List String → Except UsageError Invocation
  | [] =>
    match pending with
    | some option => .error (.missingValue option.name)
    | none => .error .missingSubcommand
  | argument :: rest =>
    match Argument.classify argument, pending with
    | .plain, some option => do
      let o ← o.set option argument
      readArguments o none rest
    | _, some option => .error (.missingValue option.name)
    | .plain, none => readSubcommand o argument rest
    | .separator, none => .error .missingSubcommand
    | .long "version" none, none => .ok .version
    | .short 'V', none => .ok .version
    | .long "help" none, none => .ok (.help none)
    | .short 'h', none => .ok (.help none)
    | .long name value, none => do
      let (o, pending) ← o.setLong name value
      readArguments o pending rest
    | .short _, none => .error (.unknownOption argument)

/-- What the arguments of the program ask for. -/
def Invocation.ofArguments (arguments : List String) : Except UsageError Invocation :=
  readArguments {} none arguments

end CommandLine.Cli

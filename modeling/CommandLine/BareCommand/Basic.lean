import CommandLine.Json.Value
import CommandLine.Marking
import CommandLine.SortedMap
/-!
# CommandLine.BareCommand.Basic

A command line without its text: the imperative, the parameters in their order and
the options by name.

* `Arguments` is the part behind the imperative.
* An option that was only ever given as a flag has the empty list of values.
* `BareCommand.Step` is one thing that a line says about its command, and
  `BareCommand.build` puts the steps together.
-/

namespace CommandLine

/-- A positional parameter. -/
structure Parameter where
  marking : Marking
  value : String
  deriving Repr, DecidableEq

/-- The parameter as a JSON object. -/
def Parameter.toJson (p : Parameter) : Json.Value :=
  .object [("kind", .text p.marking.name), ("value", .text p.value)]

/-- What stands behind the imperative: parameters in order, and for each option the
values it was given, in order. -/
structure Arguments where
  parameters : List Parameter
  options : SortedMap (List String)
  deriving DecidableEq

namespace Arguments

/-- No parameters and no options. -/
def none : Arguments := ⟨[], .empty⟩

/-- The names of the options, in rising order. -/
def optionNames (a : Arguments) : List String := a.options.keys

/-- Whether an option was given. -/
def hasOption (a : Arguments) (name : String) : Bool := a.options.contains name

/-- The values of an option, if it was given. -/
def optionValues? (a : Arguments) (name : String) : Option (List String) := a.options.get? name

/-- The first value of an option; a flag has none. -/
def firstValue? (a : Arguments) (name : String) : Option String :=
  (a.optionValues? name).bind List.head?

/-- The parameter at an index. -/
def parameter? (a : Arguments) (index : Nat) : Option Parameter := a.parameters[index]?

end Arguments

/-- A command without its text. -/
structure BareCommand extends Arguments where
  imperative : String
  deriving DecidableEq

namespace BareCommand

/-- Nothing said yet. -/
def empty : BareCommand := { Arguments.none with imperative := "" }

/-- One thing that is said about a command. -/
inductive Step where
  /-- What to do; of several, the last one counts. -/
  | imperative (word : String)
  /-- One more parameter. -/
  | parameter (marking : Marking) (value : String)
  /-- One more value of an option. -/
  | value (name value : String)
  /-- An option is there, with as many values as it has. -/
  | flag (name : String)
  deriving Repr, DecidableEq

/-- A command with one more thing said about it. -/
def apply (b : BareCommand) : Step → BareCommand
  | .imperative word => { b with imperative := word }
  | .parameter marking value => { b with parameters := b.parameters ++ [⟨marking, value⟩] }
  | .value name value =>
    { b with options := b.options.alter name fun values => values.getD [] ++ [value] }
  | .flag name => { b with options := b.options.alter name fun values => values.getD [] }

/-- The command of which a list of things is said. -/
def build (steps : List Step) : BareCommand := steps.foldl apply empty

/-- The command as a JSON object. -/
def toJson (b : BareCommand) : Json.Value :=
  .object [("imperative", .text b.imperative),
    ("parameters", .array (b.parameters.map Parameter.toJson)),
    ("options", .object (b.options.entries.map fun (name, values) => (name, .texts values)))]

end BareCommand

end CommandLine

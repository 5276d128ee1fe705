import CommandLine.Marking
import CommandLine.Token.Basic
/-!
# CommandLine.Tree.Basic

The syntax tree of a command line. Its leaves are the words and texts of the line,
as tokens; marks, slashes and colons show in the shape of the tree only.
-/

namespace CommandLine

/-- A positional parameter with its mark. -/
structure Tree.Parameter where
  marking : Marking
  text : Token
  deriving Repr, DecidableEq

/-- An option, with a value or as a flag. -/
structure Tree.NamedOption where
  name : Token
  value : Option Token
  deriving Repr, DecidableEq

/-- The tree of a line: what to do, with what, and how, in the order of the line. -/
structure Tree where
  imperative : Token
  parameters : List Tree.Parameter
  options : List Tree.NamedOption
  deriving Repr, DecidableEq

namespace Tree

/-- The parameter as a JSON object. -/
def Parameter.toJson (p : Parameter) : Json.Value :=
  .object [("kind", .text p.marking.name), ("text", p.text.toJson)]

/-- The option as a JSON object; a flag has no value. -/
def NamedOption.toJson (o : NamedOption) : Json.Value :=
  .object (("name", o.name.toJson) :: (o.value.map fun v => ("value", v.toJson)).toList)

/-- The tree as a JSON object. -/
def toJson (t : Tree) : Json.Value :=
  .object [("imperative", t.imperative.toJson),
    ("parameters", .array (t.parameters.map Parameter.toJson)),
    ("options", .array (t.options.map NamedOption.toJson))]

end Tree

end CommandLine

import CommandLine.BareCommand.Basic
import CommandLine.Tree.Node
/-!
# CommandLine.BareCommand.OfTree

From the tree of a line to the bare command: each node says at most one thing about
the command, and the nodes are asked in the order of the line.
-/

namespace CommandLine

/-- What a node says about the command. Lists, leaves and the parts of an option say
nothing, since the nodes above or below them have said it. -/
def Tree.Node.step? : Tree.Node → Option BareCommand.Step
  | imperative leaf => some (.imperative leaf.literal)
  | parameter p => some (.parameter p.marking p.text.literal)
  | option o => some <|
    match o.value with
    | some value => .value o.name.literal value.literal
    | none => .flag o.name.literal
  | _ => none

/-- The bare command of a tree. -/
def BareCommand.ofTree (t : Tree) : BareCommand :=
  build (t.nodes.filterMap Tree.Node.step?)

end CommandLine

import CommandLine.AssemblyError
import CommandLine.Config.Basic
/-!
# CommandLine.Decoder

From a bare command to a command: a table of bindings, and the settings by which an
imperative selects one of them.
-/

namespace CommandLine

/-- A table of bindings with settings for looking up in it. -/
structure Decoder (α : Type) where
  table : BindingTable α
  config : Config

namespace Decoder

variable {α : Type}

/-- The keywords that an imperative matches, in the order of the table. -/
def candidates (d : Decoder α) (typed : String) : List String :=
  (d.table.matching ((d.config.ruleFor typed).selects typed)).map (·.keyword)

/-- The binding that a typed imperative selects. Of several matching keywords, the
one typed in full wins if the settings prefer it and there is only one such; else
all of them are reported. -/
def select (d : Decoder α) (typed : String) : Except ResolutionError (Binding α) :=
  match d.table.only typed ((d.config.ruleFor typed).selects typed) with
  | .ok binding => .ok binding
  | .error (.unknown imperative) => .error (.unknown imperative)
  | .error (.ambiguous imperative candidates) =>
    if d.config.preferExact then
      (d.table.only typed (MatchRule.whole.selects typed)).mapError
        fun _ => .ambiguous imperative candidates
    else .error (.ambiguous imperative candidates)

/-- The binding that a command's imperative selects. -/
def resolve (d : Decoder α) (b : BareCommand) : Except ResolutionError (Binding α) :=
  d.select b.imperative

/-- The command that the selected binding builds. -/
def decode (d : Decoder α) (b : BareCommand) : Except AssemblyError α := do
  let binding ← (d.resolve b).mapError .resolution
  (binding.construct b).mapError .validation

end Decoder

end CommandLine

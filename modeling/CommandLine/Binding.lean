import CommandLine.BareCommand.Basic
/-!
# CommandLine.Binding

Tables of commands: keywords, each with a way to build the command that it names.

A table is a list. Keywords may repeat, and one may begin with another; it is for
the looking up to say what that means. `BindingTable.only` accepts one matching
binding and reports every other number of them.
-/

namespace CommandLine

/-- A command whose arguments do not have its shape. -/
structure ValidationError where
  /-- The keyword of the command. -/
  command : String
  /-- What is wrong with the arguments. -/
  complaint : String
  deriving Repr, DecidableEq

/-- The complaint, with the command it is about. -/
def ValidationError.message (e : ValidationError) : String :=
  "invalid `" ++ e.command ++ "` command: " ++ e.complaint

/-- An imperative that does not select exactly one binding. -/
inductive ResolutionError where
  /-- No keyword matches. -/
  | unknown (imperative : String)
  /-- Several keywords match; they are listed in the order of the table. -/
  | ambiguous (imperative : String) (candidates : List String)
  deriving Repr, DecidableEq

namespace ResolutionError

/-- The imperative as it was typed. -/
def imperative : ResolutionError → String
  | unknown imperative | ambiguous imperative _ => imperative

/-- What is wrong with the imperative. -/
def message : ResolutionError → String
  | unknown imperative => "unknown command `" ++ imperative ++ "`"
  | ambiguous imperative candidates =>
    "ambiguous command `" ++ imperative ++ "`: could be " ++ ", ".intercalate candidates

end ResolutionError

/-- A keyword and the way to build its command. -/
structure Binding (α : Type) where
  keyword : String
  construct : BareCommand → Except ValidationError α

/-- Bindings in a fixed order. -/
structure BindingTable (α : Type) where
  bindings : List (Binding α)

namespace BindingTable

variable {α : Type}

/-- The keywords, in the order of the table. -/
def keywords (table : BindingTable α) : List String := table.bindings.map (·.keyword)

/-- The bindings whose keyword satisfies `p`, in the order of the table. -/
def matching (table : BindingTable α) (p : String → Bool) : List (Binding α) :=
  table.bindings.filter (p ·.keyword)

/-- The one binding whose keyword satisfies `p`. The imperative is there for the
report. -/
def only (table : BindingTable α) (imperative : String) (p : String → Bool) :
    Except ResolutionError (Binding α) :=
  match table.matching p with
  | [] => .error (.unknown imperative)
  | [binding] => .ok binding
  | bindings => .error (.ambiguous imperative (bindings.map (·.keyword)))

end BindingTable

end CommandLine

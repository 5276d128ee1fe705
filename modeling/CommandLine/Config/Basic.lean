import CommandLine.Json.Value
/-!
# CommandLine.Config.Basic

How a typed imperative is compared with keywords.
-/

namespace CommandLine

/-- A way to compare a typed imperative with a keyword. -/
inductive MatchRule where
  /-- The keyword begins with what was typed. -/
  | leading
  /-- The keyword is what was typed. -/
  | whole
  deriving Repr, DecidableEq, Inhabited

namespace MatchRule

/-- The rules in the order in which messages list them. -/
def all : List MatchRule := [leading, whole]

/-- The name of a rule. -/
def name : MatchRule → String
  | leading => "prefix"
  | whole => "exact"

/-- Whether `typed` selects `keyword`. -/
def selects (rule : MatchRule) (typed keyword : String) : Bool :=
  match rule with
  | leading => typed.toList.isPrefixOf keyword.toList
  | whole => typed == keyword

end MatchRule

/-- The settings of a decoder. -/
structure Config where
  /-- The rule for imperatives of sufficient length. -/
  matchRule : MatchRule
  /-- Whether a keyword typed in full wins over the other keywords that begin
  with it. -/
  preferExact : Bool
  /-- Imperatives with fewer characters than this must be typed in full. -/
  minPrefixLength : Nat
  deriving Repr, DecidableEq

namespace Config

/-- Any beginning of a keyword will do, and no keyword is preferred. -/
def default : Config := ⟨.leading, false, 1⟩

instance : Inhabited Config := ⟨default⟩

/-- Only whole keywords will do. -/
def exact : Config := { default with matchRule := .whole }

/-- The rule that applies to a typed imperative. -/
def ruleFor (config : Config) (typed : String) : MatchRule :=
  if typed.length < config.minPrefixLength then .whole else config.matchRule

/-- The settings as a JSON object. -/
def toJson (config : Config) : Json.Value :=
  .object [("match_rule", .text config.matchRule.name),
    ("prefer_exact", .boolean config.preferExact),
    ("min_prefix_len", .natural config.minPrefixLength)]

end Config

end CommandLine

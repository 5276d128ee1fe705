import CommandLine.Config.Basic
import CommandLine.Json.Record
/-!
# CommandLine.Config.Reader

Settings from JSON texts.

Every field may be missing and then has its default; other fields are refused. A least
length of zero has the right type and is refused after everything else.
-/

namespace CommandLine

open Json (Reader Record Field)

/-- Why a text holds no settings. -/
inductive Config.LoadError where
  /-- The text is not a JSON text of the right type. -/
  | json (e : Json.Error)
  /-- A field has a value that makes no sense. -/
  | field (name reason : String)
  deriving Repr, DecidableEq

/-- What is wrong with the text. -/
def Config.LoadError.message : Config.LoadError → String
  | json e => "invalid config JSON: " ++ e.message
  | field name reason => "invalid " ++ name ++ ": " ++ reason

/-- Reads the name of a rule. -/
def MatchRule.reader : Reader MatchRule :=
  Reader.variant (MatchRule.all.map fun rule => (rule.name, rule))

namespace Config

/-- Settings as a JSON record. -/
def record : Record Config Config where
  name := "struct DecoderConfig"
  fields := [
    .of "match_rule" MatchRule.reader fun rule c => { c with matchRule := rule },
    .of "prefer_exact" Reader.boolean fun b c => { c with preferExact := b },
    .of "min_prefix_len" Reader.natural fun n c => { c with minPrefixLength := n }]
  start := default
  strict := true
  complete := false
  finish := .ok

/-- The settings that a text holds. -/
def load (text : String) : Except LoadError Config := do
  let config ← (record.reader.parse text).mapError .json
  if config.minPrefixLength = 0 then .error (.field "min_prefix_len" "must be at least 1")
  else .ok config

end Config

end CommandLine

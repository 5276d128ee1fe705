import CommandLine.Decoder
import CommandLine.Text.Quoted
/-!
# CommandLine.Description

Decoders and their parts in words, for people who look for a mistake.
-/

namespace CommandLine

/-- A binding in words; how it builds its command has none. -/
def Binding.describe {α : Type} (b : Binding α) : String :=
  "Binding \x7b keyword: " ++ Text.quoted b.keyword ++ ", .. \x7d"

/-- A table in words: its keywords. -/
def BindingTable.describe {α : Type} (table : BindingTable α) : String :=
  Text.quotedList table.keywords

/-- A rule in words. -/
def MatchRule.describe : MatchRule → String
  | leading => "Prefix"
  | whole => "Exact"

/-- Settings in words. -/
def Config.describe (config : Config) : String :=
  "DecoderConfig \x7b match_rule: " ++ config.matchRule.describe ++ ", prefer_exact: "
    ++ (if config.preferExact then "true" else "false") ++ ", min_prefix_len: "
    ++ toString config.minPrefixLength ++ " \x7d"

/-- A decoder in words. -/
def Decoder.describe {α : Type} (d : Decoder α) : String :=
  "Decoder \x7b table: " ++ d.table.describe ++ ", config: " ++ d.config.describe ++ " \x7d"

end CommandLine

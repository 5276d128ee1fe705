import CommandLine.Span
/-!
# CommandLine.Token.Basic

The tokens of a command line.
-/

namespace CommandLine

/-- The kinds of tokens. -/
inductive Token.Kind where
  /-- A run of ASCII letters and digits. -/
  | word
  /-- Characters between double quotes. -/
  | text
  /-- The `/` before the name of an option. -/
  | slash
  /-- The `:` between the name of an option and its value. -/
  | colon
  /-- The `+` before an additive parameter. -/
  | plus
  /-- The `-` before a subtractive parameter. -/
  | minus
  /-- The end of the line. -/
  | terminal
  deriving Repr, DecidableEq, Inhabited

/-- A token. The span of a text covers its quotes, its literal is without them;
for every other kind the literal is what the span covers. -/
structure Token where
  kind : Token.Kind
  literal : String
  span : Span
  deriving Repr, DecidableEq, Inhabited

namespace Token

/-- The name of a kind. -/
def Kind.name : Kind → String
  | word => "Word"
  | text => "Text"
  | slash => "Slash"
  | colon => "Colon"
  | plus => "Plus"
  | minus => "Minus"
  | terminal => "Terminal"

/-- Several kinds as alternatives. -/
def Kind.alternatives (kinds : List Kind) : String :=
  " | ".intercalate (kinds.map name)

/-- The token as a JSON object. -/
def toJson (t : Token) : Json.Value :=
  .object [("kind", .text t.kind.name), ("literal", .text t.literal), ("span", t.span.toJson)]

end Token

end CommandLine

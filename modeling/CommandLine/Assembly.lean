import CommandLine.BareCommand.OfTree
import CommandLine.Decoder
/-!
# CommandLine.Assembly

The whole way from a line to its command, and the stations on it.

```text
line → TokenStream → Tree → BareCommand → command
```
-/

namespace CommandLine

/-- The tokens of a line. -/
def tokenize (line : String) : Except AssemblyError TokenStream :=
  (TokenStream.ofLine line).mapError .lexical

/-- The tree of a line. -/
def parseTree (line : String) : Except AssemblyError Tree := do
  let tokens ← tokenize line
  (Tree.ofStream tokens).mapError .grammatical

/-- The bare command of a line. -/
def parse (line : String) : Except AssemblyError BareCommand :=
  (parseTree line).map .ofTree

/-- The command of a line. -/
def assemble {α : Type} (d : Decoder α) (line : String) : Except AssemblyError α := do
  let bare ← parse line
  d.decode bare

end CommandLine

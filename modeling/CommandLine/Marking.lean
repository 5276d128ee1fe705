/-!
# CommandLine.Marking

The mark that a positional parameter may carry.
-/

namespace CommandLine

/-- How a positional parameter is marked. -/
inductive Marking where
  /-- No mark. -/
  | normal
  /-- A `+` in front. -/
  | additive
  /-- A `-` in front. -/
  | subtractive
  deriving Repr, DecidableEq, Inhabited

namespace Marking

/-- The name of a marking. -/
def name : Marking → String
  | normal => "Normal"
  | additive => "Additive"
  | subtractive => "Subtractive"

/-- What stands in front of a parameter that is marked so. -/
def sign : Marking → List Char
  | normal => []
  | additive => ['+']
  | subtractive => ['-']

end Marking

end CommandLine

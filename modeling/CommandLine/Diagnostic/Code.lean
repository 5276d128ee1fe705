/-!
# CommandLine.Diagnostic.Code

The codes of diagnostics. The first digit tells the stage that complains: reading
tokens, reading the tree, choosing the command, checking its shape.
-/

namespace CommandLine

/-- The faults that have a code of their own. -/
inductive Code where
  | unexpectedCharacter
  | unterminatedText
  | unexpectedToken
  | unknownCommand
  | ambiguousCommand
  | invalidShape
  deriving Repr, DecidableEq

namespace Code

/-- Every code, in the order of its text. -/
def all : List Code :=
  [unexpectedCharacter, unterminatedText, unexpectedToken, unknownCommand, ambiguousCommand,
    invalidShape]

/-- The text of a code. -/
def id : Code → String
  | unexpectedCharacter => "CMD1001"
  | unterminatedText => "CMD1002"
  | unexpectedToken => "CMD2001"
  | unknownCommand => "CMD3001"
  | ambiguousCommand => "CMD3002"
  | invalidShape => "CMD4001"

/-- The code with a given text. -/
def ofId? (s : String) : Option Code := all.find? (·.id == s)

/-- What a code means and what to do about it. -/
def explanation : Code → String
  | unexpectedCharacter =>
    "The input contains a character that does not start any token. Commands may only "
      ++ "contain letters, digits, spaces, double-quoted text, and the symbols / : + -."
  | unterminatedText =>
    "A double-quoted text value was opened but never closed. Add the closing quote "
      ++ "before the end of the line."
  | unexpectedToken =>
    "The command is made of valid tokens, but they are not in an order the grammar "
      ++ "accepts. A command is an imperative word, then parameters, then /options."
  | unknownCommand =>
    "No known command starts with the typed imperative. Use `help` to list commands."
  | ambiguousCommand =>
    "The typed imperative is a prefix of more than one known command. Type more "
      ++ "characters to pick exactly one."
  | invalidShape =>
    "The command was recognized, but its parameters or options do not match what "
      ++ "that command expects (for example, a missing index or an unexpected option)."

/-- The explanation for the text of a code, if it is one. -/
def explain? (s : String) : Option String := (ofId? s).map explanation

/-- Every code is found by its text, so no two codes share one. -/
theorem ofId?_id (c : Code) : ofId? c.id = some c := by
  cases c <;> decide

end Code

end CommandLine

import CommandLine.Text.Bytes
import CommandLine.Text.Quoted
/-!
# CommandLine.Json.Fault

What can be wrong with a JSON text, and where.

Readers work on the characters that are left. So a `Fault` names its place by the
characters left there and a number of bytes to go on from them; what that is in lines and
columns is worked out once, from the whole text (`Fault.position`).
-/

namespace CommandLine.Json

open Text (byteLength quoted)

/-! ### Places -/

/-- A place in a text: the line, counted from one, and the bytes before the place on
that line. -/
structure Position where
  line : Nat
  column : Nat
  deriving Repr, DecidableEq

namespace Position

/-- The place `bytes` bytes behind another one, or the end of the characters there. -/
def advance (p : Position) (bytes : Nat) : List Char → Position
  | [] => p
  | c :: cs =>
    if bytes < c.utf8Size then ⟨p.line, p.column + bytes⟩
    else if c = '\n' then advance ⟨p.line + 1, 0⟩ (bytes - 1) cs
    else advance ⟨p.line, p.column + c.utf8Size⟩ (bytes - c.utf8Size) cs

/-- The place as messages give it. -/
def text (p : Position) : String :=
  "line " ++ toString p.line ++ " column " ++ toString p.column

end Position

/-! ### Causes -/

/-- What stands in the text where something else is expected. -/
inductive Found where
  | null
  | boolean (b : Bool)
  | natural (n : Nat)
  /-- The number `-n`. -/
  | negative (n : Nat)
  /-- A number that is no integer, as text. -/
  | float (digits : String)
  | text (s : String)
  | sequence
  | map
  deriving Repr, DecidableEq

/-- What stands there, in words. -/
def Found.description : Found → String
  | null => "null"
  | boolean b => "boolean `" ++ (if b then "true" else "false") ++ "`"
  | natural n => "integer `" ++ toString n ++ "`"
  | negative n => "integer `-" ++ toString n ++ "`"
  | float digits => "floating point `" ++ digits ++ "`"
  | text s => "string " ++ quoted s
  | sequence => "sequence"
  | map => "map"

/-- What is wrong with a JSON text. -/
inductive Problem where
  /-- The text ends where a value is expected. -/
  | endInValue
  | endInList
  | endInObject
  | endInString
  /-- No value starts here. -/
  | valueExpected
  /-- A wrong letter in `true`, `false` or `null`. -/
  | identExpected
  | keyExpected
  | colonExpected
  | listCommaOrEnd
  | objectCommaOrEnd
  | trailingComma
  /-- Something follows the value. -/
  | trailingCharacters
  | invalidNumber
  | numberOutOfRange
  | invalidEscape
  | controlCharacter
  /-- The second half of a surrogate pair without the first one, or the first one
  followed by no second one. -/
  | loneSurrogate
  /-- The first half of a surrogate pair, followed by no escape. -/
  | surrogateEnds
  /-- A value of another type. -/
  | wrongType (found : Found) (expected : String)
  /-- A value of the right type that is not allowed. -/
  | wrongValue (found : Found) (expected : String)
  | unknownVariant (found : String) (known : List String)
  | unknownField (name : String) (known : List String)
  | duplicateField (name : String)
  | missingField (name : String)
  /-- A list of the wrong length. -/
  | wrongLength (length : Nat) (expected : String)
  deriving Repr, DecidableEq

/-- Some known names as alternatives. -/
def alternatives (names : List String) : String :=
  match names.map fun name => "`" ++ name ++ "`" with
  | [a, b] => a ++ " or " ++ b
  | [a] => a
  | quoted => "one of " ++ ", ".intercalate quoted

/-- The wording of a problem. -/
def Problem.description : Problem → String
  | endInValue => "EOF while parsing a value"
  | endInList => "EOF while parsing a list"
  | endInObject => "EOF while parsing an object"
  | endInString => "EOF while parsing a string"
  | valueExpected => "expected value"
  | identExpected => "expected ident"
  | keyExpected => "key must be a string"
  | colonExpected => "expected `:`"
  | listCommaOrEnd => "expected `,` or `]`"
  | objectCommaOrEnd => "expected `,` or `\x7d`"
  | trailingComma => "trailing comma"
  | trailingCharacters => "trailing characters"
  | invalidNumber => "invalid number"
  | numberOutOfRange => "number out of range"
  | invalidEscape => "invalid escape"
  | controlCharacter => "control character (\\u0000-\\u001F) found while parsing a string"
  | loneSurrogate => "lone leading surrogate in hex escape"
  | surrogateEnds => "unexpected end of hex escape"
  | wrongType found expected => "invalid type: " ++ found.description ++ ", expected " ++ expected
  | wrongValue found expected => "invalid value: " ++ found.description ++ ", expected " ++ expected
  | unknownVariant found known =>
    "unknown variant `" ++ found ++ "`, expected " ++ alternatives known
  | unknownField name known => "unknown field `" ++ name ++ "`, expected " ++ alternatives known
  | duplicateField name => "duplicate field `" ++ name ++ "`"
  | missingField name => "missing field `" ++ name ++ "`"
  | wrongLength length expected =>
    "invalid length " ++ toString length ++ ", expected " ++ expected

/-! ### Causes at places -/

/-- A problem, and its place: `bytes` bytes behind the start of the characters `rest`. -/
structure Fault where
  problem : Problem
  rest : List Char
  bytes : Nat
  deriving Repr, DecidableEq

namespace Fault

/-- A problem with the next byte. At the end of the text it is told of the last one. -/
def next (problem : Problem) (rest : List Char) : Fault := ⟨problem, rest, 1⟩

/-- A problem with what was read last. -/
def after (problem : Problem) (rest : List Char) : Fault := ⟨problem, rest, 0⟩

/-- The place of a fault in the text that it was found in. -/
def position (fault : Fault) (text : List Char) : Position :=
  Position.advance ⟨1, 0⟩ (byteLength text - byteLength fault.rest + fault.bytes) text

end Fault

/-- A problem at a place. -/
structure Error where
  problem : Problem
  position : Position
  deriving Repr, DecidableEq

/-- What is wrong, and where. -/
def Error.message (e : Error) : String :=
  e.problem.description ++ " at " ++ e.position.text

end CommandLine.Json

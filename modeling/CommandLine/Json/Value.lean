/-!
# CommandLine.Json.Value

JSON values that the library writes, and their text.

A `Layout` says where line breaks and blanks go; `Value.render` writes a value in
either layout, so that both have one definition. Numbers are natural numbers,
since no other number is ever written.
-/

namespace CommandLine.Json

/-- A JSON value; an object keeps the order of its members. -/
inductive Value where
  | null
  | boolean (b : Bool)
  | natural (n : Nat)
  | text (s : String)
  | array (items : List Value)
  | object (members : List (String × Value))
  deriving Repr, BEq, Inhabited

/-- How a value is spread over lines. -/
inductive Layout where
  /-- Everything on one line, without blanks. -/
  | compact
  /-- An item or member a line, indented by two blanks a level. -/
  | indented
  deriving Repr, DecidableEq

namespace Layout

/-- What separates an item at nesting level `depth` from what precedes it. -/
def lineBreak : Layout → Nat → List Char
  | compact, _ => []
  | indented, depth => '\n' :: List.replicate (2 * depth) ' '

/-- What stands between the key of a member and its value. -/
def colon : Layout → List Char
  | compact => [':']
  | indented => [':', ' ']

end Layout

/-! ### Strings -/

/-- The lower-case hexadecimal digit of a number below sixteen. -/
def hexDigit (n : Nat) : Char := Nat.digitChar n

/-- How a character is written between quotes: quote, backslash and the five
control characters with a short form by a backslash and one letter, the other
control characters by their code, all else as it is. -/
def escapeChar (c : Char) : List Char :=
  if c = '"' then ['\\', '"']
  else if c = '\\' then ['\\', '\\']
  else if c = '\x08' then ['\\', 'b']
  else if c = '\t' then ['\\', 't']
  else if c = '\n' then ['\\', 'n']
  else if c = '\x0c' then ['\\', 'f']
  else if c = '\r' then ['\\', 'r']
  else if c.toNat < 0x20 then
    ['\\', 'u', '0', '0', hexDigit (c.toNat / 16), hexDigit (c.toNat % 16)]
  else [c]

/-- A string between quotes. -/
def quote (s : String) : List Char := '"' :: s.toList.flatMap escapeChar ++ ['"']

/-! ### Values -/

namespace Value

mutual

/-- The text of a value that stands at nesting level `depth`. -/
def render (layout : Layout) (depth : Nat) : Value → List Char
  | null => "null".toList
  | boolean true => "true".toList
  | boolean false => "false".toList
  | natural n => Nat.toDigits 10 n
  | text s => quote s
  | array [] => ['[', ']']
  | array (item :: items) =>
    '[' :: layout.lineBreak (depth + 1) ++ render layout (depth + 1) item
      ++ renderItems layout depth items
  | object [] => ['{', '}']
  | object ((key, value) :: members) =>
    '{' :: layout.lineBreak (depth + 1) ++ quote key ++ layout.colon
      ++ render layout (depth + 1) value ++ renderMembers layout depth members

/-- The items of an array after the first one, and its end. -/
def renderItems (layout : Layout) (depth : Nat) : List Value → List Char
  | [] => layout.lineBreak depth ++ [']']
  | item :: items =>
    ',' :: layout.lineBreak (depth + 1) ++ render layout (depth + 1) item
      ++ renderItems layout depth items

/-- The members of an object after the first one, and its end. -/
def renderMembers (layout : Layout) (depth : Nat) : List (String × Value) → List Char
  | [] => layout.lineBreak depth ++ ['}']
  | (key, value) :: members =>
    ',' :: layout.lineBreak (depth + 1) ++ quote key ++ layout.colon
      ++ render layout (depth + 1) value ++ renderMembers layout depth members

end

/-- A value on one line. -/
def compact (v : Value) : String := String.ofList (v.render .compact 0)

/-- A value over several lines. -/
def pretty (v : Value) : String := String.ofList (v.render .indented 0)

/-- A string, or `null` in its absence. -/
def ofText? (s : Option String) : Value := s.elim null text

/-- An array of strings. -/
def texts (ss : List String) : Value := array (ss.map text)

/-- A member that is left out in the absence of a value. -/
def member? (key : String) (s : Option String) : List (String × Value) :=
  (s.map fun value => (key, text value)).toList

end Value

end CommandLine.Json

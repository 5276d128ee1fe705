import CommandLine.Cli.Folder
/-!
# CommandLine.Cli.Line

The line that the program works on: an argument, or the first line of standard input
without its end.
-/

namespace CommandLine.Cli

/-- The byte that ends lines. -/
def lineFeed : UInt8 := 10

/-- The first line of some bytes, its end included. -/
def firstLine : List UInt8 → List UInt8
  | [] => []
  | b :: bytes => if b = lineFeed then [b] else b :: firstLine bytes

/-- The text that bytes are in UTF-8, if they are one. -/
def decodeText (bytes : List UInt8) : Except ReadFault String :=
  match String.fromUTF8? ⟨bytes.toArray⟩ with
  | some text => .ok text
  | none => .error .notText

/-- A line without the characters that end it. -/
def dropLineEnd (line : String) : String :=
  let isEnd (c : Char) : Bool := c = '\n' || c = '\r'
  String.ofList (line.toList.reverse.dropWhile isEnd).reverse

/-- The line that an argument names: the argument itself, or the first line of standard
input in its absence and for `-`. -/
def readLine (argument : Option String) (stdin : List UInt8) : Except ReadFault String :=
  match argument with
  | some line => if line = "-" then fromInput else .ok line
  | none => fromInput
where
  /-- The first line of standard input. -/
  fromInput : Except ReadFault String := (decodeText (firstLine stdin)).map dropLineEnd

end CommandLine.Cli

/-!
# CommandLine.Cli.Folder

A folder with files, as far as reading a file by its path goes.

A path is walked part by part from the folder, and every part needs a folder to start
from. Nothing is known about places outside of the folder but that folders lead to them.
-/

namespace CommandLine.Cli

/-- Why a file cannot be read. -/
inductive ReadFault where
  /-- There is nothing at the path. -/
  | missing
  /-- A folder is there. -/
  | isFolder
  /-- The path goes on behind a file. -/
  | notFolder
  /-- The path, or a part of it, is longer than paths may be. -/
  | tooLong
  /-- The bytes are no text. -/
  | notText
  /-- Anything else, in the words of the system. -/
  | other (message : String)
  deriving Repr, DecidableEq

/-- What is wrong, in the words of the system. -/
def ReadFault.message : ReadFault → String
  | missing => "No such file or directory (os error 2)"
  | isFolder => "Is a directory (os error 21)"
  | notFolder => "Not a directory (os error 20)"
  | tooLong => "File name too long (os error 36)"
  | notText => "stream did not contain valid UTF-8"
  | other message => message

/-- A folder: the bytes of files and the paths of folders, each path relative to it. -/
structure Folder where
  files : List (String × List UInt8)
  folders : List String
  deriving Repr

namespace Folder

/-- A place that a path leads to. -/
inductive Place where
  /-- A folder within, by the names that lead to it. -/
  | folder (names : List String)
  | file (bytes : List UInt8)
  /-- A folder without. -/
  | outside
  deriving Repr, DecidableEq

/-- The parts of a path. -/
def parts (path : String) : List String := path.splitOn "/"

/-- Whether some names lead to a folder: to one that is listed, or on the way to an entry. -/
def hasFolder (f : Folder) (names : List String) : Bool :=
  (f.folders.map parts).any names.isPrefixOf
    || (f.files.map fun entry => (parts entry.1).dropLast).any names.isPrefixOf

/-- The number of bytes that one part of a path may have. -/
def maxPartLength : Nat := 255

/-- The number of bytes that a path may have. -/
def maxPathLength : Nat := 4095

/-- The place that names lead to, all but the last of which lead to folders. -/
def child (f : Folder) (names : List String) : Except ReadFault Place :=
  match f.files.find? fun entry => parts entry.1 == names with
  | some (_, bytes) => .ok (.file bytes)
  | none => if f.hasFolder names then .ok (.folder names) else .error .missing

/-- Goes one part further. -/
def step (f : Folder) (place : Place) (part : String) : Except ReadFault Place :=
  match place with
  | .file _ => .error .notFolder
  | .outside =>
    if part ∈ ["", ".", ".."] then .ok .outside
    else if maxPartLength < part.utf8ByteSize then .error .tooLong
    else .error .missing
  | .folder names =>
    if part = "" ∨ part = "." then .ok (.folder names)
    else if part = ".." then
      .ok (if names = [] then .outside else .folder names.dropLast)
    else if maxPartLength < part.utf8ByteSize then .error .tooLong
    else f.child (names ++ [part])

/-- The place that a path leads to. A path that starts with `/` leads outside. -/
def place (f : Folder) (path : String) : Except ReadFault Place :=
  if maxPathLength < path.utf8ByteSize then .error .tooLong
  else
    match parts path with
    | [""] => .error .missing
    | "" :: rest => rest.foldlM f.step .outside
    | all => all.foldlM f.step (.folder [])

/-- The bytes of the file at a path. -/
def read (f : Folder) (path : String) : Except ReadFault (List UInt8) := do
  match ← f.place path with
  | .file bytes => .ok bytes
  | .folder _ | .outside => .error .isFolder

end Folder

end CommandLine.Cli

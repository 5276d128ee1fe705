import CommandLine.Cli.Run
/-!
# CommandLine.Main

The program: it reads what a request needs, lets `Cli.run` decide, and prints.
-/

namespace CommandLine.Cli

/-- The number of a fault of the system, whichever sign it comes with. -/
def faultNumber (code : UInt32) : Nat := min code.toNat (Nat.pow 2 32 - code.toNat)

/-- What the system says about a file that it cannot read. -/
def ReadFault.ofSystem : IO.Error → ReadFault
  | .noFileOrDirectory .. => .missing
  | .permissionDenied .. => .other "Permission denied (os error 13)"
  | .inappropriateType _ code _ => if faultNumber code = 21 then .isFolder else .notFolder
  | .invalidArgument _ code details =>
    if faultNumber code = 36 then .tooLong else .other details
  | e => .other (toString e)

/-- The bytes of a file. -/
def readFile (path : String) : IO (Except ReadFault (List UInt8)) := do
  try
    return .ok (← IO.FS.readBinFile path).toList
  catch e =>
    return .error (.ofSystem e)

/-- The bytes of a stream up to the end of its first line. -/
partial def readFirstLine (stream : IO.FS.Stream) (taken : List UInt8) : IO (List UInt8) := do
  let bytes ← stream.read 1
  match bytes.toList with
  | [] => return taken.reverse
  | b :: _ =>
    if b = lineFeed then return (b :: taken).reverse
    else readFirstLine stream (b :: taken)

/-- What a request needs to read. -/
def gather (arguments : List String) : IO Surroundings := do
  match Invocation.ofArguments arguments with
  | .ok (.run options request) =>
    let file ←
      match options.config with
      | some path => if request.needsConfig then readFile path else pure (.error .missing)
      | none => pure (.error .missing)
    let stdin ← if request.needsInput then readFirstLine (← IO.getStdin) [] else pure []
    return { stdin, file := fun _ => file, terminal := ← (← IO.getStdout).isTty }
  | _ => return { stdin := [], file := fun _ => .error .missing }

end CommandLine.Cli

open CommandLine.Cli in
/-- Runs the program. -/
def main (arguments : List String) : IO UInt32 := do
  let outcome := run arguments (← gather arguments)
  IO.print outcome.stdout
  IO.eprint outcome.stderr
  return outcome.exit.toUInt32

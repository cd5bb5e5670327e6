import Humus.Command.Program

/-!
# The program

Reads the file that the command line names, and prints what comes of it.
-/

namespace Humus

/-- The reason of an error, with the number that the operating system gives it. -/
def reasonOf : IO.Error → String
  | .inappropriateType _ code details | .invalidArgument _ code details
  | .hardwareFault code details | .resourceBusy code details | .otherError code details =>
    details ++ " (os error " ++ toString code ++ ")"
  | e => toString e

/-- What comes of reading the file at `path`. -/
def readSource (path : String) : IO Reading := do
  try
    let bytes ← IO.FS.withFile path .read (·.readBinToEnd)
    return (String.fromUTF8? bytes).elim .binary .text
  catch e =>
    match e with
    | .noFileOrDirectory .. => return .missing
    | .permissionDenied .. => return .denied
    | e => return .failed (reasonOf e)

/-- The file that a command reads, if it reads one. -/
def pathOf : List String → Option String
  | command :: rest =>
    if command ∈ ["tokens", "parse", "ir"] then ((Options.parse rest).toOption.map (·.2)).join
    else none
  | [] => none

/-- More deliveries than any source needs. -/
def plentyOfDeliveries : Nat := 4611686018427387904

end Humus

/-- Run the program on the arguments of the command line. -/
def main (arguments : List String) : IO UInt32 := do
  let stderr ← IO.getStderr
  let reading ← match Humus.pathOf arguments with
    | some path => Humus.readSource path
    | none => pure .missing
  match Humus.Program.run Humus.plentyOfDeliveries (← stderr.isTty) arguments fun _ => reading with
  | none => return 1
  | some result =>
    (← IO.getStdout).putStr result.stdout
    stderr.putStr result.stderr
    return result.status.toUInt32

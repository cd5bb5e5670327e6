import Humus.Command.Phase
import Humus.Diagnostic.Report

/-!
# The command line

What the program prints and with which status it ends, given its arguments and the files that it
can read.

## Main definitions

* `Reading`: what comes of reading a file
* `Exit`: what a run of the program leaves behind
* `Program.run`: the run of the program
-/

namespace Humus

/-- What comes of reading a file. -/
inductive Reading where
  | text (s : String)
  | missing
  | denied
  /-- The bytes are no text. -/
  | binary
  /-- The file cannot be read for another reason. -/
  | failed (reason : String)

namespace Reading

/-- The text of the file, or what to say instead. -/
def textOr (path : String) : Reading → Except String String
  | .text s => .ok s
  | .missing => .error ("cannot find file '" ++ path ++ "'")
  | .denied => .error ("permission denied reading '" ++ path ++ "'")
  | .binary => .error ("'" ++ path ++ "' contains invalid UTF-8 data")
  | .failed reason => .error ("error reading '" ++ path ++ "': " ++ reason)

end Reading

/-- What a run of the program leaves behind. -/
structure Exit where
  status : Nat := 0
  stdout : String := ""
  stderr : String := ""
  deriving DecidableEq

namespace Program

/-- Several lines. -/
def lines (ls : List String) : String :=
  String.join (ls.map (· ++ "\n"))

/-- How the program is used. -/
def usage : String :=
  lines [
    "Humus front end",
    "",
    "Usage: humus <command> [options]",
    "",
    "Commands:",
    "  tokens <file.hum>    Tokenize and display tokens",
    "  parse <file.hum>     Parse and display the syntax tree",
    "  ir <file.hum>        Parse, lower and display the behavior tree",
    "  --explain <code>     Explain an error code (e.g., E1001)",
    "  help                 Show this help message",
    "  version              Show version information",
    "",
    "Options:",
    "  --limit=<n>          Stop each event-loop run after n deliveries",
    "  --emit=<format>      Output format: json (default), debug",
    "",
    "Logging:",
    "  RUST_LOG=humus_parse=debug humus parse main.hum",
    "  RUST_LOG=humus_peg=trace humus tokens main.hum"]

/-- The name and version of the program. -/
def version : String :=
  lines ["Humus front end 0.1.0"]

/-- Explain an error code. -/
def explain (code : String) : Exit :=
  match ErrorCode.lookupAnyCase? code with
  | some c => { stdout := lines [c.text ++ ": " ++ c.description] }
  | none => {
      status := 1
      stderr := lines (["Unknown error code: " ++ code, "", "Known codes:"]
        ++ ErrorCode.all.map fun c => "  " ++ c.text ++ "  " ++ c.description) }

/-- The text of a failed phase. -/
def complaint (isTerminal : Bool) (path source : String) (d : Diagnostic) : String :=
  let report : Report :=
    { colors := ColorMode.auto.isOn isTerminal, source := some ⟨path, source⟩ }
  report.diagnostic d ++ report.summary 1 0

/-- Run a phase on a file. -/
def runPhase (fuel : Nat) (isTerminal : Bool) (phase : Phase) (command : String)
    (arguments : List String) (read : String → Reading) : Option Exit :=
  match Options.parse arguments with
  | .error e => some { status := 1, stderr := lines ["error: " ++ e.message] }
  | .ok (_, none) => some {
      status := 1
      stderr := lines ["error: missing file path",
        "Usage: humus " ++ command ++ " <file.hum> [--limit=<n>] [--emit=json|debug]"] }
  | .ok (options, some path) =>
    match (read path).textOr path with
    | .error message => some { status := 1, stderr := lines ["error: " ++ message] }
    | .ok source => do
      match ← phase.run fuel options source with
      | .ok output => return { stdout := lines [output] }
      | .error d => return { status := 1, stderr := complaint isTerminal path source d }

/-- Run the program on its arguments. Diagnostics are colored if the error output is a
terminal. -/
def run (fuel : Nat) (isTerminal : Bool) (arguments : List String) (read : String → Reading) :
    Option Exit :=
  match arguments with
  | [] => some { stdout := usage }
  | command :: rest =>
    match command with
    | "tokens" => runPhase fuel isTerminal .tokens command rest read
    | "parse" => runPhase fuel isTerminal .tree command rest read
    | "ir" => runPhase fuel isTerminal .behavior command rest read
    | "help" | "--help" | "-h" => some { stdout := usage }
    | "version" | "--version" | "-v" => some { stdout := version }
    | "--explain" | "explain" =>
      match rest with
      | code :: _ => some (explain code)
      | [] => some {
          status := 1
          stderr := lines ["Usage: humus --explain <ERROR_CODE>",
            "Example: humus --explain E1002"] }
    | _ => some {
        status := 1
        stdout := usage
        stderr := lines ["Unknown command: " ++ command, ""] }

end Program

end Humus

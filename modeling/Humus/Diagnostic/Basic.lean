import Humus.Diagnostic.Code
import Humus.Peg.Parse

/-!
# Diagnostics

A diagnostic says what went wrong, where, and what else is worth knowing.

## Main definitions

* `Diagnostic`: a message with a code, labels on places of the source, and notes
* `Diagnostic.ofFailure`, `Diagnostic.ofFault`, `Diagnostic.ofStop`: the diagnostics of the
  matching engine
-/

namespace Humus

open Dispatch (Stop)
open Peg (Failure Fault MatchValue)

/-- How bad it is. -/
inductive Severity where
  | error
  | warning
  | note
  deriving DecidableEq

namespace Severity

/-- The word for the severity. -/
def text : Severity → String
  | .error => "error"
  | .warning => "warning"
  | .note => "note"

end Severity

/-- A marked place of the source. -/
structure Label where
  /-- The row and column of the mark. -/
  position : Position
  /-- How many characters are marked. A mark is never narrower than one character. -/
  width : Nat
  message : String
  /-- Whether this is where the error is, and not where something is that it has to do with. -/
  isPrimary : Bool := true
  deriving DecidableEq

/-- What went wrong, where, and what else is worth knowing. -/
structure Diagnostic where
  code : ErrorCode
  severity : Severity := .error
  message : String := ""
  labels : List Label := []
  notes : List String := []
  deriving DecidableEq

namespace Diagnostic

/-- Add a note. -/
def withNote (d : Diagnostic) (note : String) : Diagnostic :=
  { d with notes := d.notes ++ [note] }

/-- Whether the diagnostic is an error. -/
def isError (d : Diagnostic) : Bool :=
  d.severity = .error

/-- The first label that is where the error is. -/
def primaryLabel? (d : Diagnostic) : Option Label :=
  d.labels.find? (·.isPrimary)

/-- The first line of the diagnostic. -/
def header (d : Diagnostic) : String :=
  d.severity.text ++ "[" ++ d.code.text ++ "]: " ++ d.message

/-- A failed match. The label is on the furthest cursor. -/
def ofFailure {V : Type} [MatchValue V] (code : ErrorCode) (f : Failure V) : Diagnostic where
  code
  message := f.description ++ ", found " ++ f.found
  labels := [{ position := f.furthest.position, width := 1, message := f.description }]

/-- A mistake in a grammar. -/
def ofFault (fault : Fault) : Diagnostic where
  code := .grammar
  message := fault.message
  notes := ["this is a fault in the grammar, not in the program"]

/-- What stopped an event loop. -/
def ofStop : Stop Fault → Diagnostic
  | .fault fault => ofFault fault
  | .limit limit => {
      code := .dispatchLimit
      message := Peg.stopMessage (.limit limit)
      notes := ["raise the limit above " ++ toString limit ++ " or split the input"] }

end Diagnostic

end Humus

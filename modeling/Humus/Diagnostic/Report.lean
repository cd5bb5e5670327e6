import Humus.Diagnostic.Basic
import Humus.Source.Lines

/-!
# Reports

A report shows diagnostics to a reader. A label whose row is a line of the source quotes that line
and draws a mark under it; any other label is given by its place alone.

## Main definitions

* `Report`: whether to use colors, and the source that labels point into
* `Report.diagnostic`, `Report.summary`: the text of a diagnostic, and of the closing line
* `Report.label`: the text of one label
-/

namespace Humus

/-- When to use colors. -/
inductive ColorMode where
  /-- On a terminal. -/
  | auto
  | always
  | never
  deriving DecidableEq

namespace ColorMode

/-- Whether to use colors on an output that is a terminal, or is none. -/
def isOn (isTerminal : Bool) : ColorMode → Bool
  | .auto => isTerminal
  | .always => true
  | .never => false

end ColorMode

/-- The styles of a report. -/
inductive Style where
  | error
  | warning
  | note
  | bold
  | secondary
  deriving DecidableEq

namespace Style

/-- The escape sequence that begins a style. -/
def code : Style → String
  | .error => "\x1b[1;31m"
  | .warning => "\x1b[1;33m"
  | .note => "\x1b[1;36m"
  | .bold => "\x1b[1m"
  | .secondary => "\x1b[1;34m"

/-- The escape sequence that ends every style. -/
def reset : String := "\x1b[0m"

/-- The style of the word for a severity. -/
def ofSeverity : Severity → Style
  | .error => .error
  | .warning => .warning
  | .note => .note

end Style

/-- A source with its name. -/
structure NamedSource where
  name : String
  text : String

/-- How diagnostics are shown. -/
structure Report where
  /-- Whether to use colors. -/
  colors : Bool := false
  /-- The source that labels point into. -/
  source : Option NamedSource := none

namespace Report

/-- A text in a style. -/
def paint (r : Report) (style : Style) (text : String) : String :=
  if r.colors then style.code ++ text ++ Style.reset else text

/-- The row of the source that a label is on, without carriage returns at its end. -/
def quotedLine? (r : Report) (l : Label) : Option (List Char) :=
  match r.source with
  | some source => (splitLines source.text.toList)[l.position.row]?.map (dropTrailing '\r')
  | none => none

/-- What stands before a mark in column `col`: a blank for every character of the line, and a tab
for a tab, so that the mark stands under its column. -/
def padding : Nat → List Char → List Char
  | 0, _ => []
  | col + 1, [] => ' ' :: padding col []
  | col + 1, c :: line => (if c = '\t' then '\t' else ' ') :: padding col line

/-- The arrow that leads to the place of a label. -/
def arrow (l : Label) : String :=
  if l.isPrimary then "-->" else ":::"

/-- The style of a label. -/
def labelStyle (l : Label) : Style :=
  if l.isPrimary then .error else .secondary

/-- The mark of a label. -/
def mark (l : Label) : String :=
  String.ofList (List.replicate (max l.width 1) (if l.isPrimary then '^' else '-'))

/-- The line that quotes the source. -/
def quoteLine (l : Label) (line : List Char) : String :=
  " " ++ toString (l.position.row + 1) ++ " | " ++ String.ofList line

/-- The blanks that take the place of the line number on the other lines. -/
def gutter (l : Label) : String :=
  String.ofList (List.replicate ((toString (l.position.row + 1)).length + 1) ' ')

/-- The line that marks the column of a label under the quoted line. -/
def markLine (r : Report) (l : Label) (line : List Char) : String :=
  gutter l ++ " | " ++ String.ofList (padding l.position.col line)
    ++ r.paint (labelStyle l) (mark l ++ " " ++ l.message)

/-- The text of a label. -/
def label (r : Report) (l : Label) : String :=
  match r.source, r.quotedLine? l with
  | some source, some line =>
    gutter l ++ arrow l ++ " " ++ source.name ++ ":" ++ l.position.text ++ "\n"
      ++ gutter l ++ " |\n"
      ++ quoteLine l line ++ "\n"
      ++ r.markLine l line ++ "\n"
  | _, _ =>
    "  " ++ arrow l ++ " " ++ l.position.text ++ ": " ++ r.paint (labelStyle l) l.message ++ "\n"

/-- The text of a note. -/
def note (r : Report) (text : String) : String :=
  "  = " ++ r.paint .bold "note" ++ ": " ++ text ++ "\n"

/-- The text of a diagnostic, with an empty line at its end. -/
def diagnostic (r : Report) (d : Diagnostic) : String :=
  r.paint (.ofSeverity d.severity) d.severity.text ++ r.paint .bold ("[" ++ d.code.text ++ "]")
    ++ ": " ++ d.message ++ "\n"
    ++ String.join (d.labels.map r.label) ++ String.join (d.notes.map r.note) ++ "\n"

/-- A number of warnings. -/
def warningCount (n : Nat) : String :=
  toString n ++ (if n = 1 then " warning" else " warnings")

/-- A number of errors that came before. -/
def errorCount (n : Nat) : String :=
  if n = 1 then "previous error" else toString n ++ " previous errors"

/-- The line that closes a report. There is none if nothing went wrong. -/
def summary (r : Report) (errors warnings : Nat) : String :=
  if 0 < errors then
    r.paint .error "error" ++ ": aborting due to " ++ errorCount errors
      ++ (if 0 < warnings then "; " ++ warningCount warnings ++ " emitted" else "") ++ "\n"
  else if 0 < warnings then
    r.paint .warning "warning" ++ ": " ++ warningCount warnings ++ " emitted\n"
  else ""

end Report

end Humus

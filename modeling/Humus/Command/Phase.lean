import Humus.Behavior.Document
import Humus.Behavior.Lowering
import Humus.Behavior.Outline
import Humus.Command.Options
import Humus.Tree.Document
import Humus.Tree.Reading

/-!
# Phases

The phases of the front end as functions from a source to a text: its tokens, its syntax tree, its
behavior tree.

## Main definitions

* `Phase`, `Phase.run`: the phases, and the text that a phase makes of a source
-/

namespace Humus

open Text (Json Outline)

/-- A phase of the front end. -/
inductive Phase where
  | tokens
  | tree
  | behavior
  deriving DecidableEq

namespace Phase

/-- The result in a form. -/
def render (form : Form) (document : Json) (outline : Outline) : String :=
  match form with
  | .json => document.pretty
  | .outline => outline.expanded

/-- A token with its line and column as a document. -/
def tokenJson (t : PlacedToken) : Json :=
  .object ([("line", .nat (t.position.row + 1)), ("column", .nat (t.position.col + 1))]
    ++ t.token.fields)

/-- A token with its line and column on one line. -/
def tokenLine (t : PlacedToken) : String :=
  t.position.text ++ " " ++ t.token.kind ++ " " ++ t.token.text

/-- The tokens of a source. -/
def showTokens (form : Form) (tokens : List PlacedToken) : String :=
  match form with
  | .json => (Json.array (tokens.map tokenJson)).pretty
  | .outline => "\n".intercalate (tokens.map tokenLine)

/-- The statements of a program. -/
def showTree (form : Form) (stmts : List Tree.Stmt) : String :=
  render form (.array (Tree.jsonStmts stmts)) (.items (Tree.outlineStmts stmts))

/-- A behavior tree. -/
def showBehavior (form : Form) (b : Behavior.Expr) : String :=
  render form b.json b.outline

/-- What a phase makes of a source. `none` when a run did not finish within `fuel` deliveries. -/
def run (fuel : Nat) (phase : Phase) (options : Options) (source : String) :
    Option (Except Diagnostic String) :=
  match phase with
  | .tokens => do
    let tokens ← tokenize fuel options.limit source
    return (tokens.mapError LexError.diagnostic).map (showTokens options.form)
  | .tree => do
    let stmts ← parseProgram fuel options.limit source
    return (stmts.mapError ParseError.diagnostic).map (showTree options.form)
  | .behavior => do
    let stmts ← parseProgram fuel options.limit source
    return do
      let stmts ← stmts.mapError ParseError.diagnostic
      let b ← (lowerProgram stmts).mapError LowerError.diagnostic
      return showBehavior options.form b

end Phase

end Humus

import Humus.Token.Reduction
import Humus.Tree.Reduction
import Humus.Peg.Parse
import Humus.Diagnostic.Basic

/-!
# Reading tokens

The tokens of a source are the positions of the stream that the token grammar derives from its
characters. The stream ends early where no token can be read, and that is the lexical error of the
source.

## Main definitions

* `frontEnd`: the world in which a source is read
* `tokenStream`: the stream of the tokens of a source
* `tokenize`: the tokens of a source, with their positions
* `LexError`: why a source has no tokens
-/

namespace Humus

open Dispatch (Stop)
open Peg (World Stream Cursor Failure Fault)

/-- The world in which a source is read: the token grammar and the syntax grammar. -/
def frontEnd : World Node :=
  { grammars := #[some Lexical.grammar, some Syntactic.grammar] }

/-- A token and where it begins. The offset counts tokens, the row and column are those of its
first character. -/
structure PlacedToken where
  token : Token
  position : Position
  deriving DecidableEq

/-- Why a source has no tokens. -/
inductive LexError where
  /-- No token can be read at some place. -/
  | stalled (failure : Failure Node)
  /-- The event loop was stopped. -/
  | halted (stop : Stop Fault)
  /-- A lexeme was reduced to something that is no token. -/
  | unreduced (position : Position) (found : Node)

namespace LexError

/-- The error in one sentence. -/
def message : LexError → String
  | .stalled f => f.message
  | .halted stop => Peg.stopMessage stop
  | .unreduced position found =>
    "token grammar produced " ++ found.describe ++ " at " ++ position.text

/-- The error as a diagnostic. -/
def diagnostic : LexError → Diagnostic
  | .stalled f => (Diagnostic.ofFailure .lexical f).withNote "no token can start here"
  | .halted stop => .ofStop stop
  | .unreduced position found => {
      code := .grammar
      message := message (.unreduced position found)
      labels := [{ position, width := 1, message := "unreduced lexeme" }] }

end LexError

/-- The stream of the tokens of a source. What stands before a token is skipped, so that the
position of a token is that of its text. -/
def tokenStream (source : String) (w : World Node) : Stream Node × World Node :=
  w.derive (.ofString source) (some (Lexical.call "_")) (Lexical.call "lexeme")

/-- The tokens at the cursors of a stream, up to its end. -/
def tokensOf : List (Cursor Node) → Except LexError (List PlacedToken)
  | [] | .finish _ :: _ => .ok []
  | .stalled _ failure :: _ => .error (.stalled failure)
  | .token position (.token token) _ :: cursors =>
    (tokensOf cursors).map (⟨token, position⟩ :: ·)
  | .token position found _ :: _ => .error (.unreduced position found)

/-- The tokens of a source. -/
def tokenize (fuel : Nat) (limit : Option Nat) (source : String) :
    Option (Except LexError (List PlacedToken)) := do
  let (stream, w) := tokenStream source frontEnd
  let (cursors, _) ← Peg.collect fuel limit stream w
  match cursors with
  | .ok cursors => return tokensOf cursors
  | .error stop => return .error (.halted stop)

end Humus

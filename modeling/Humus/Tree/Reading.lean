import Humus.Token.Reading

/-!
# Reading programs

A source is parsed by the syntax grammar over the stream of its tokens, both grammars working on
one event loop. The token stream may end early at text that is no token, and it then looks like an
end of the input to the syntax grammar; such a parse is a lexical error, whether it matched or
not.

## Main definitions

* `parseExpr`, `parseStmt`, `parseProgram`: the syntax tree of a source
* `ParseError`: why a source has no syntax tree
* `frontEndOutline`: the two grammars in a trace
-/

namespace Humus

open Dispatch (Stop)
open Peg (World Pattern Failure Fault)
open Humus.Tree (Expr Stmt)

/-- Why a source has no syntax tree. -/
inductive ParseError where
  /-- Some of its text is no token. -/
  | lex (error : LexError)
  /-- Its tokens do not form what was asked for. -/
  | syntactic (failure : Failure Node)
  /-- The event loop was stopped. -/
  | halted (stop : Stop Fault)
  /-- The event loop went idle and nobody had answered. -/
  | incomplete
  /-- The whole was reduced to something else than was asked for. -/
  | unreduced (expected : String) (found : Node)

namespace ParseError

/-- Whether the source should have gone on. -/
def isUnexpectedEnd : ParseError → Bool
  | .syntactic f => f.furthest.isEnd
  | _ => false

/-- The error in one sentence. -/
def message : ParseError → String
  | .lex error => error.message
  | .syntactic f => f.message
  | .halted stop => Peg.stopMessage stop
  | .incomplete => "the event loop went idle before the parse finished"
  | .unreduced expected found =>
    "parse produced " ++ found.describe ++ " where " ++ expected ++ " was expected"

/-- The error as a diagnostic. -/
def diagnostic : ParseError → Diagnostic
  | .lex error => error.diagnostic
  | .syntactic f =>
    .ofFailure (if f.furthest.isEnd then .unexpectedEnd else .unexpectedToken) f
  | .halted stop => .ofStop stop
  | error => { code := .grammar, message := error.message }

end ParseError

/-- The front end in a trace, with the limit of its event loops. -/
def frontEndOutline (limit : Option Nat) : Text.Outline :=
  let limits := [("dispatch_limit", .option .nat limit)]
  .record "Parser" [
    ("lexer", .record "Lexer" [
      ("grammar", Lexical.grammar.outline),
      ("config", .record "EventLoopConfig" limits)]),
    ("grammar", Syntactic.grammar.outline),
    ("options", .record "ParseOptions" limits)]

/-- Look for the reason of a failure. A repetition that stops early hides why it stopped: the
failure is noticed by what follows it. Matching the rule `resume` where the failure was noticed
finds the reason, if that match gets at least as far. -/
def refine (fuel : Nat) (limit : Option Nat) (resume : String) (failure : Failure Node)
    (w : World Node) : Option (Failure Node) :=
  if failure.furthest.isEnd then some failure
  else do
    let (outcome, _) ← Peg.parseAt fuel limit (Syntactic.call resume) failure.furthest w
    match outcome with
    | .error (.failed deeper) =>
      return if failure.furthest.offset ≤ deeper.furthest.offset then deeper else failure
    | _ => return failure

/-- Match `pattern` over the tokens of a source. -/
def readPattern (fuel : Nat) (limit : Option Nat) (pattern : Pattern Node) (resume : String)
    (source : String) : Option (Except ParseError Node) := do
  let (stream, w) := tokenStream source frontEnd
  let (outcome, w) ← Peg.parse fuel limit pattern stream w
  match outcome with
  | .ok s =>
    match s.stop.stall? with
    | some stall => return .error (.lex (.stalled stall))
    | none => return .ok s.value
  | .error (.failed failure) =>
    let failure ← refine fuel limit resume failure w
    match failure.furthest.stall? with
    | some stall => return .error (.lex (.stalled stall))
    | none => return .error (.syntactic failure)
  | .error (.halted stop) => return .error (.halted stop)
  | .error .incomplete => return .error .incomplete

/-- Match the rule `name` over all tokens of a source. -/
def readWhole (fuel : Nat) (limit : Option Nat) (name : String) (source : String) :
    Option (Except ParseError Node) := do
  let result ← readPattern fuel limit (.sequence [Syntactic.call name, .finish]) name source
  return result.map fun
    | .list (n :: _) => n
    | n => n

/-- The expression that a source is. -/
def parseExpr (fuel : Nat) (limit : Option Nat) (source : String) :
    Option (Except ParseError Expr) := do
  match ← readWhole fuel limit "expr" source with
  | .ok (.expr e) => return .ok e
  | .ok n => return .error (.unreduced "expression" n)
  | .error e => return .error e

/-- The statement that a source is. -/
def parseStmt (fuel : Nat) (limit : Option Nat) (source : String) :
    Option (Except ParseError Stmt) := do
  match ← readWhole fuel limit "stmt" source with
  | .ok (.stmt s) => return .ok s
  | .ok n => return .error (.unreduced "statement" n)
  | .error e => return .error e

/-- The statements that nodes are. -/
def stmtsOf : List Node → Except ParseError (List Stmt)
  | [] => .ok []
  | .stmt s :: ns => (stmtsOf ns).map (s :: ·)
  | n :: _ => .error (.unreduced "statement" n)

/-- The statements of the program that a source is. -/
def parseProgram (fuel : Nat) (limit : Option Nat) (source : String) :
    Option (Except ParseError (List Stmt)) := do
  match ← readPattern fuel limit (Syntactic.call "humus") "stmt" source with
  | .ok (.list ns) => return stmtsOf ns
  | .ok n => return .error (.unreduced "statement list" n)
  | .error e => return .error e

end Humus

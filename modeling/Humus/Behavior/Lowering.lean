import Humus.Behavior.Basic
import Humus.Diagnostic.Basic

/-!
# Lowering

The behavior tree of a syntax tree. Every block and every local equation opens a scope, in which
`CREATE` and the identifiers of `LET` equations declare their names. A conditional without a second
branch gets the undefined constant for it.

A number literal without a value has no behavior.

## Main definitions

* `lowerExpr`, `lowerStmt`, `lowerProgram`: the behavior tree of a syntax tree
* `LowerError`: why there is none
-/

namespace Humus

open Humus.Tree (Literal)

/-- Why a syntax tree has no behavior tree. -/
inductive LowerError where
  /-- A number literal has no value. -/
  | invalidNumber (n : Number)
  deriving DecidableEq

namespace LowerError

/-- The literal that has no value, as it is written. -/
def literal : LowerError → String
  | .invalidNumber n => n.text

/-- The error in one sentence. -/
def message : LowerError → String
  | .invalidNumber n => "invalid number literal `" ++ n.text ++ "`"

/-- The error as a diagnostic. -/
def diagnostic (e : LowerError) : Diagnostic where
  code := .lowering
  message := e.message
  notes := ["digits must be valid in the radix (2 to 36) and the value must fit 64 bits"]

end LowerError

namespace Lowering

/-- The names declared by a block or a local equation, in the order of their first declaration. -/
abbrev Scope := List String

/-- The open scopes, the innermost first. -/
abbrev Scopes := List Scope

/-- A lowering changes the open scopes and may fail. The scopes outlive a failure. -/
abbrev LowerM := ExceptT LowerError (StateM Scopes)

/-- The scope with one more name. A name is declared once. -/
def addName (name : String) (scope : Scope) : Scope :=
  if name ∈ scope then scope else scope ++ [name]

/-- Declare a name in the innermost scope. Outside of all scopes nothing is declared. -/
def declare (name : String) : LowerM Unit :=
  modify fun
    | [] => []
    | scope :: scopes => addName name scope :: scopes

/-- Lower something in a scope of its own, which is closed whether it fails or not. Answers the
names that it declares, too. -/
def inScope {α : Type} (lower : LowerM α) : LowerM (Scope × α) := ExceptT.mk do
  modify ([] :: ·)
  let result ← lower.run
  let scopes ← get
  set scopes.tail
  return result.map (scopes.headD [], ·)

/-- A literal, if it has a value. -/
def lowerLiteral : Literal → LowerM Literal
  | .number n => if n.value?.isNone then throw (.invalidNumber n) else return .number n
  | l => return l

mutual

/-- Lower an expression. The second branch of a conditional is lowered first. -/
def lowerExpr : Tree.Expr → LowerM Behavior.Expr
  | .pair head tail => return .pair (← lowerExpr head) (← lowerExpr tail)
  | .letIn eqtn body => do
    let (vars, eqtn) ← inScope (lowerEqtn true eqtn)
    return .letIn vars eqtn (← lowerExpr body)
  | .cond eqtn body next => do
    let next ← lowerNext next
    return .cond (← lowerEqtn false eqtn) (← lowerExpr body) next
  | .case subject arms => return .case (← lowerExpr subject) (← lowerArms arms)
  | .new expr => return .new (← lowerExpr expr)
  | .app abs arg => return .app (← lowerExpr abs) (← lowerExpr arg)
  | .ident name => return .ident name
  | .block stmts => do
    let (vars, stmts) ← inScope (lowerStmts stmts)
    return .block vars (.chain stmts)
  | .self => return .self
  | .abs ptrn body => return .abs (← lowerPtrn false ptrn) (← lowerExpr body)
  | .const value => return .const value
  | .literal value => return .literal (← lowerLiteral value)

/-- Lower the second branch of a conditional. -/
def lowerNext : Option Tree.Expr → LowerM Behavior.Expr
  | some next => lowerExpr next
  | none => return .const .undefined

/-- Lower the statements of a block. -/
def lowerStmts : List Tree.Stmt → LowerM (List Behavior.Stmt)
  | [] => return []
  | s :: ss => return (← lowerStmt s) :: (← lowerStmts ss)

/-- Lower a statement. -/
def lowerStmt : Tree.Stmt → LowerM Behavior.Stmt
  | .expr expr => return .expr (← lowerExpr expr)
  | .bind eqtn => return .bind (← lowerEqtn true eqtn)
  | .send msg recipient => return .send (← lowerExpr msg) (← lowerExpr recipient)
  | .afterSend delay msg recipient =>
    return .afterSend (← lowerExpr delay) (← lowerExpr msg) (← lowerExpr recipient)
  | .create name expr => do
    declare name
    return .create name (← lowerExpr expr)
  | .become expr => return .become (← lowerExpr expr)
  | .throw expr => return .throw (← lowerExpr expr)

/-- Lower the arms of a case distinction, the last one first. -/
def lowerArms : List Tree.Arm → LowerM Behavior.Cases
  | [] => return .finish
  | .mk ptrn expr :: arms => do
    let next ← lowerArms arms
    return .choice (← lowerPtrn false ptrn) (← lowerExpr expr) next

/-- Lower a pattern. Where it binds, its identifiers are declared. -/
def lowerPtrn (binds : Bool) : Tree.Ptrn → LowerM Behavior.Ptrn
  | .pair head tail => return .pair (← lowerPtrn binds head) (← lowerPtrn binds tail)
  | .any => return .any
  | .value expr => return .value (← lowerExpr expr)
  | .ident name => do
    if binds then declare name
    return .ident name
  | .self => return .self
  | .const value => return .const value
  | .literal value => return .literal (← lowerLiteral value)

/-- Lower an equation. Where it binds, the identifiers of both sides are declared. -/
def lowerEqtn (binds : Bool) : Tree.Eqtn → LowerM Behavior.Eqtn
  | .mk left right => return .mk (← lowerPtrn binds left) (← lowerPtrn binds right)

end

/-- What a lowering comes to when these scopes are open, and the scopes that it leaves. -/
def runIn {α : Type} (scopes : Scopes) (lower : LowerM α) : Except LowerError α × Scopes :=
  lower.run.run scopes

end Lowering

/-- The behavior tree of an expression. -/
def lowerExpr (e : Tree.Expr) : Except LowerError Behavior.Expr :=
  (Lowering.runIn [] (Lowering.lowerExpr e)).1

/-- The behavior tree of a statement outside of any block. What it binds is declared nowhere. -/
def lowerStmt (s : Tree.Stmt) : Except LowerError Behavior.Stmt :=
  (Lowering.runIn [] (Lowering.lowerStmt s)).1

/-- The behavior tree of a program, which is a block like any other. -/
def lowerProgram (stmts : List Tree.Stmt) : Except LowerError Behavior.Expr :=
  (Lowering.runIn [] (Lowering.lowerExpr (.block stmts))).1

end Humus

import Humus.Tree.Basic

/-!
# Syntax trees in traces

## Main definitions

* `Expr.outline`, `Stmt.outline`, `Ptrn.outline`, `Eqtn.outline`: the shapes of syntax trees
-/

namespace Humus.Tree

open Text (Outline)

/-- The constant in a trace. -/
def Constant.outline : Constant → Outline
  | .nil => .word "Nil"
  | .bool b => .word (if b then "True" else "False")
  | .undefined => .word "Undefined"

/-- The literal in a trace. -/
def Literal.outline : Literal → Outline
  | .symbol name => .applied "Symbol" [.string name]
  | .number n => .applied "Number" [n.outline]
  | .char c => .applied "Char" [.char c]
  | .string s => .applied "String" [.string s]

mutual

/-- The expression in a trace. -/
def Expr.outline : Expr → Outline
  | .pair head tail => .record "Pair" [("head", head.outline), ("tail", tail.outline)]
  | .letIn eqtn body => .record "LetIn" [("eqtn", eqtn.outline), ("expr", body.outline)]
  | .cond eqtn body next =>
    .record "If" [("eqtn", eqtn.outline), ("expr", body.outline), ("next", outlineOption next)]
  | .case subject arms =>
    .record "Case" [("expr", subject.outline), ("arms", .items (outlineArms arms))]
  | .new expr => .record "New" [("expr", expr.outline)]
  | .app abs arg => .record "App" [("abs", abs.outline), ("arg", arg.outline)]
  | .ident name => .record "Ident" [("ident", .string name)]
  | .block stmts => .record "Block" [("stmts", .items (outlineStmts stmts))]
  | .self => .word "SelfRef"
  | .abs ptrn body => .record "Abs" [("ptrn", ptrn.outline), ("body", body.outline)]
  | .const value => .record "Const" [("value", value.outline)]
  | .literal value => .record "Literal" [("value", value.outline)]

/-- An expression that may be missing, in a trace. -/
def outlineOption : Option Expr → Outline
  | none => .word "None"
  | some e => .applied "Some" [e.outline]

/-- The statement in a trace. -/
def Stmt.outline : Stmt → Outline
  | .expr expr => .record "Expr" [("expr", expr.outline)]
  | .bind eqtn => .record "Let" [("eqtn", eqtn.outline)]
  | .send msg recipient => .record "Send" [("msg", msg.outline), ("to", recipient.outline)]
  | .afterSend delay msg recipient =>
    .record "AfterSend" [("dt", delay.outline), ("msg", msg.outline), ("to", recipient.outline)]
  | .create name expr => .record "Create" [("ident", .string name), ("expr", expr.outline)]
  | .become expr => .record "Become" [("expr", expr.outline)]
  | .throw expr => .record "Throw" [("expr", expr.outline)]

/-- Statements in a trace. -/
def outlineStmts : List Stmt → List Outline
  | [] => []
  | s :: ss => s.outline :: outlineStmts ss

/-- The arm in a trace. -/
def Arm.outline : Arm → Outline
  | .mk ptrn expr => .record "CaseArm" [("ptrn", ptrn.outline), ("expr", expr.outline)]

/-- Arms in a trace. -/
def outlineArms : List Arm → List Outline
  | [] => []
  | a :: as => a.outline :: outlineArms as

/-- The pattern in a trace. -/
def Ptrn.outline : Ptrn → Outline
  | .pair head tail => .record "Pair" [("head", head.outline), ("tail", tail.outline)]
  | .any => .word "Any"
  | .value expr => .record "Value" [("expr", expr.outline)]
  | .ident name => .record "Ident" [("ident", .string name)]
  | .self => .word "SelfRef"
  | .const value => .record "Const" [("value", value.outline)]
  | .literal value => .record "Literal" [("value", value.outline)]

/-- The equation in a trace. -/
def Eqtn.outline : Eqtn → Outline
  | .mk left right => .record "Eqtn" [("left", left.outline), ("right", right.outline)]

end

end Humus.Tree

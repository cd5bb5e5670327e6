import Humus.Behavior.Basic
import Humus.Tree.Outline

/-!
# Behavior trees in traces

## Main definitions

* `Expr.outline`, `Stmt.outline`: the shapes of behavior trees
-/

namespace Humus.Behavior

open Text (Outline)

mutual

/-- The expression in a trace. -/
def Expr.outline : Expr → Outline
  | .block vars stmt =>
    .record "Block" [("vars", .items (vars.map .string)), ("stmt", stmt.outline)]
  | .pair head tail => .record "Pair" [("head", head.outline), ("tail", tail.outline)]
  | .letIn vars eqtn expr =>
    .record "Let" [("vars", .items (vars.map .string)), ("eqtn", eqtn.outline),
      ("expr", expr.outline)]
  | .cond eqtn expr next =>
    .record "If" [("eqtn", eqtn.outline), ("expr", expr.outline), ("next", next.outline)]
  | .case expr next => .record "Case" [("expr", expr.outline), ("next", next.outline)]
  | .new expr => .record "New" [("expr", expr.outline)]
  | .app abs arg => .record "App" [("abs", abs.outline), ("arg", arg.outline)]
  | .ident name => .record "Ident" [("ident", .string name)]
  | .self => .word "SelfRef"
  | .abs ptrn body => .record "Abs" [("ptrn", ptrn.outline), ("body", body.outline)]
  | .const value => .record "Const" [("value", value.outline)]
  | .literal value => .record "Literal" [("value", value.outline)]

/-- The statement in a trace. -/
def Stmt.outline : Stmt → Outline
  | .pair head tail => .record "Pair" [("head", head.outline), ("tail", tail.outline)]
  | .empty => .word "Empty"
  | .expr expr => .record "Expr" [("expr", expr.outline)]
  | .bind eqtn => .record "Let" [("eqtn", eqtn.outline)]
  | .send msg recipient => .record "Send" [("msg", msg.outline), ("to", recipient.outline)]
  | .afterSend delay msg recipient =>
    .record "AfterSend" [("dt", delay.outline), ("msg", msg.outline), ("to", recipient.outline)]
  | .create name expr => .record "Create" [("ident", .string name), ("expr", expr.outline)]
  | .become expr => .record "Become" [("expr", expr.outline)]
  | .throw expr => .record "Throw" [("expr", expr.outline)]

/-- The arms in a trace. -/
def Cases.outline : Cases → Outline
  | .choice ptrn expr next =>
    .record "Choice" [("ptrn", ptrn.outline), ("expr", expr.outline), ("next", next.outline)]
  | .finish => .word "End"

/-- The pattern in a trace. -/
def Ptrn.outline : Ptrn → Outline
  | .pair head tail => .record "Pair" [("head", head.outline), ("tail", tail.outline)]
  | .any => .word "Any"
  | .value expr => .record "Value" [("expr", expr.outline)]
  | .ident name => .record "Ident" [("ident", .string name)]
  | .self => .word "SelfRef"
  | .const value => .record "Const" [("value", value.outline)]
  | .literal value => .record "Literal" [("value", value.outline)]

/-- The equation in a trace. -/
def Eqtn.outline : Eqtn → Outline
  | .mk left right => .record "EqtnBeh" [("left", left.outline), ("right", right.outline)]

end

end Humus.Behavior

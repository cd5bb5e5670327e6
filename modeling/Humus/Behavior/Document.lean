import Humus.Behavior.Basic
import Humus.Tree.Document

/-!
# Behavior trees as documents

## Main definitions

* `Expr.json`, `Stmt.json`: the JSON documents of behavior trees, whose first field is the tag of a
  node
-/

namespace Humus.Behavior

open Text (Json)

/-- A document with the tag of a node and its parts. -/
def node (tag : String) (parts : List (String × Json)) : Json :=
  .object (("beh", .string tag) :: parts)

/-- Names as a document. -/
def names (vars : List String) : Json :=
  .array (vars.map .string)

mutual

/-- The expression as a document. -/
def Expr.json : Expr → Json
  | .block vars stmt => node (Expr.block vars stmt).tag [("vars", names vars), ("stmt", stmt.json)]
  | .pair head tail => node (Expr.pair head tail).tag [("head", head.json), ("tail", tail.json)]
  | .letIn vars eqtn expr =>
    node (Expr.letIn vars eqtn expr).tag [("vars", names vars), ("eqtn", eqtn.json),
      ("expr", expr.json)]
  | .cond eqtn expr next =>
    node (Expr.cond eqtn expr next).tag [("eqtn", eqtn.json), ("expr", expr.json),
      ("next", next.json)]
  | .case expr next => node (Expr.case expr next).tag [("expr", expr.json), ("next", next.json)]
  | .new expr => node (Expr.new expr).tag [("expr", expr.json)]
  | .app abs arg => node (Expr.app abs arg).tag [("abs", abs.json), ("arg", arg.json)]
  | .ident name => node (Expr.ident name).tag [("ident", .string name)]
  | .self => node Expr.self.tag []
  | .abs ptrn body => node (Expr.abs ptrn body).tag [("ptrn", ptrn.json), ("body", body.json)]
  | .const value => node (Expr.const value).tag [("value", value.json)]
  | .literal value => node (Expr.literal value).tag [("value", value.json)]

/-- The statement as a document. -/
def Stmt.json : Stmt → Json
  | .pair head tail => node (Stmt.pair head tail).tag [("head", head.json), ("tail", tail.json)]
  | .empty => node Stmt.empty.tag []
  | .expr expr => node (Stmt.expr expr).tag [("expr", expr.json)]
  | .bind eqtn => node (Stmt.bind eqtn).tag [("eqtn", eqtn.json)]
  | .send msg recipient =>
    node (Stmt.send msg recipient).tag [("msg", msg.json), ("to", recipient.json)]
  | .afterSend delay msg recipient =>
    node (Stmt.afterSend delay msg recipient).tag
      [("dt", delay.json), ("msg", msg.json), ("to", recipient.json)]
  | .create name expr =>
    node (Stmt.create name expr).tag [("ident", .string name), ("expr", expr.json)]
  | .become expr => node (Stmt.become expr).tag [("expr", expr.json)]
  | .throw expr => node (Stmt.throw expr).tag [("expr", expr.json)]

/-- The arms as a document. -/
def Cases.json : Cases → Json
  | .choice ptrn expr next =>
    node (Cases.choice ptrn expr next).tag [("ptrn", ptrn.json), ("expr", expr.json),
      ("next", next.json)]
  | .finish => node Cases.finish.tag []

/-- The pattern as a document. -/
def Ptrn.json : Ptrn → Json
  | .pair head tail => node (Ptrn.pair head tail).tag [("head", head.json), ("tail", tail.json)]
  | .any => node Ptrn.any.tag []
  | .value expr => node (Ptrn.value expr).tag [("expr", expr.json)]
  | .ident name => node (Ptrn.ident name).tag [("ident", .string name)]
  | .self => node Ptrn.self.tag []
  | .const value => node (Ptrn.const value).tag [("value", value.json)]
  | .literal value => node (Ptrn.literal value).tag [("value", value.json)]

/-- The equation as a document. -/
def Eqtn.json : Eqtn → Json
  | .mk left right => node (Eqtn.mk left right).tag [("left", left.json), ("right", right.json)]

end

end Humus.Behavior

import Humus.Tree.Basic

/-!
# Syntax trees as documents

## Main definitions

* `Expr.json`, `Stmt.json`, `Ptrn.json`, `Eqtn.json`: the JSON documents of syntax trees, whose
  first field is the kind of a node
-/

namespace Humus.Tree

open Text (Json)

/-- The constant as a document. -/
def Constant.json : Constant → Json
  | .nil => .null
  | .bool b => .bool b
  | .undefined => .string "?"

/-- The literal as a document. -/
def Literal.json : Literal → Json
  | .symbol name => .object [("type", .string "symbol"), ("value", .string name)]
  | .number n => .object [("type", .string "number"), ("value", n.json)]
  | .char c => .object [("type", .string "char"), ("value", .char c)]
  | .string s => .object [("type", .string "string"), ("value", .string s)]

/-- A document with the kind of a node and its parts. -/
def node (kind : String) (parts : List (String × Json)) : Json :=
  .object (("type", .string kind) :: parts)

mutual

/-- The expression as a document. -/
def Expr.json : Expr → Json
  | .pair head tail => node "pair" [("head", head.json), ("tail", tail.json)]
  | .letIn eqtn body => node "let_in" [("eqtn", eqtn.json), ("expr", body.json)]
  | .cond eqtn body next =>
    node "if" [("eqtn", eqtn.json), ("expr", body.json), ("next", jsonOption next)]
  | .case subject arms => node "case" [("expr", subject.json), ("arms", .array (jsonArms arms))]
  | .new expr => node "new" [("expr", expr.json)]
  | .app abs arg => node "app" [("abs", abs.json), ("arg", arg.json)]
  | .ident name => node "ident" [("ident", .string name)]
  | .block stmts => node "block" [("stmts", .array (jsonStmts stmts))]
  | .self => node "self" []
  | .abs ptrn body => node "abs" [("ptrn", ptrn.json), ("body", body.json)]
  | .const value => node "const" [("value", value.json)]
  | .literal value => node "literal" [("value", value.json)]

/-- An expression that may be missing, as a document. -/
def jsonOption : Option Expr → Json
  | none => .null
  | some e => e.json

/-- The statement as a document. -/
def Stmt.json : Stmt → Json
  | .expr expr => node "expr" [("expr", expr.json)]
  | .bind eqtn => node "let" [("eqtn", eqtn.json)]
  | .send msg recipient => node "send" [("msg", msg.json), ("to", recipient.json)]
  | .afterSend delay msg recipient =>
    node "after_send" [("dt", delay.json), ("msg", msg.json), ("to", recipient.json)]
  | .create name expr => node "create" [("ident", .string name), ("expr", expr.json)]
  | .become expr => node "become" [("expr", expr.json)]
  | .throw expr => node "throw" [("expr", expr.json)]

/-- Statements as documents. -/
def jsonStmts : List Stmt → List Json
  | [] => []
  | s :: ss => s.json :: jsonStmts ss

/-- The arm as a document. -/
def Arm.json : Arm → Json
  | .mk ptrn expr => .object [("ptrn", ptrn.json), ("expr", expr.json)]

/-- Arms as documents. -/
def jsonArms : List Arm → List Json
  | [] => []
  | a :: as => a.json :: jsonArms as

/-- The pattern as a document. -/
def Ptrn.json : Ptrn → Json
  | .pair head tail => node "pair" [("head", head.json), ("tail", tail.json)]
  | .any => node "any" []
  | .value expr => node "value" [("expr", expr.json)]
  | .ident name => node "ident" [("ident", .string name)]
  | .self => node "self" []
  | .const value => node "const" [("value", value.json)]
  | .literal value => node "literal" [("value", value.json)]

/-- The equation as a document. -/
def Eqtn.json : Eqtn → Json
  | .mk left right => .object [("left", left.json), ("right", right.json)]

end

end Humus.Tree

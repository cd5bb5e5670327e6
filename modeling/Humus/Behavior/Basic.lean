import Humus.Tree.Basic

/-!
# Behavior trees

A behavior tree says which behavior evaluates each part of a program. Statements are chained in
pairs that end with an empty statement, and the arms of a case distinction in choices that end
with an end.

## Main definitions

* `Expr`, `Stmt`, `Cases`, `Ptrn`, `Eqtn`: the behaviors
* `Stmt.chain`, `Stmt.links`: statements as a chain, and the statements of a chain
* `Expr.tag`, `Stmt.tag`, `Cases.tag`, `Ptrn.tag`, `Eqtn.tag`: the names of the behaviors
* `Expr.tags`, `Stmt.tags`: the names of all behaviors in a tree, in order
-/

namespace Humus.Behavior

open Humus.Tree (Constant Literal)

mutual

/-- The behavior of an expression. -/
inductive Expr where
  /-- A block with the names that it binds. -/
  | block (vars : List String) (stmt : Stmt)
  | pair (head tail : Expr)
  /-- A local equation with the names that it binds. -/
  | letIn (vars : List String) (eqtn : Eqtn) (expr : Expr)
  | cond (eqtn : Eqtn) (expr next : Expr)
  | case (expr : Expr) (next : Cases)
  | new (expr : Expr)
  | app (abs arg : Expr)
  | ident (name : String)
  | self
  | abs (ptrn : Ptrn) (body : Expr)
  | const (value : Constant)
  | literal (value : Literal)

/-- The behavior of a statement. -/
inductive Stmt where
  | pair (head tail : Stmt)
  | empty
  | expr (expr : Expr)
  | bind (eqtn : Eqtn)
  | send (msg recipient : Expr)
  | afterSend (delay msg recipient : Expr)
  | create (name : String) (expr : Expr)
  | become (expr : Expr)
  | throw (expr : Expr)

/-- The behavior of the arms of a case distinction. -/
inductive Cases where
  | choice (ptrn : Ptrn) (expr : Expr) (next : Cases)
  | finish

/-- The behavior of a pattern. -/
inductive Ptrn where
  | pair (head tail : Ptrn)
  | any
  | value (expr : Expr)
  | ident (name : String)
  | self
  | const (value : Constant)
  | literal (value : Literal)

/-- The behavior of an equation. -/
inductive Eqtn where
  | mk (left right : Ptrn)

end

/-! ## Chains -/

/-- The chain of some statements. -/
def Stmt.chain : List Stmt → Stmt
  | [] => .empty
  | s :: ss => .pair s (chain ss)

/-- The statements of a chain, in order. A statement that is no chain is its only one. -/
def Stmt.links : Stmt → List Stmt
  | .pair head tail => head :: tail.links
  | .empty => []
  | s => [s]

theorem Stmt.links_chain (ss : List Stmt) : (chain ss).links = ss := by
  induction ss with
  | nil => rfl
  | cons s ss ih => simp [chain, links, ih]

/-! ## Tags -/

/-- The name of the behavior. -/
def Expr.tag : Expr → String
  | .block .. => "block_expr"
  | .pair .. => "pair_expr"
  | .letIn .. => "let_expr"
  | .cond .. => "if_expr"
  | .case .. => "case_expr"
  | .new _ => "new_expr"
  | .app .. => "app_expr"
  | .ident _ => "ident_expr"
  | .self => "self_expr"
  | .abs .. => "abs_expr"
  | .const _ => "const_expr"
  | .literal _ => "literal_expr"

/-- The name of the behavior. -/
def Stmt.tag : Stmt → String
  | .pair .. => "stmt_pair"
  | .empty => "empty_stmt"
  | .expr _ => "expr_stmt"
  | .bind _ => "let_stmt"
  | .send .. => "send_stmt"
  | .afterSend .. => "after_send_stmt"
  | .create .. => "create_stmt"
  | .become _ => "become_stmt"
  | .throw _ => "throw_stmt"

/-- The name of the behavior. -/
def Cases.tag : Cases → String
  | .choice .. => "case_choice"
  | .finish => "case_end"

/-- The name of the behavior. -/
def Ptrn.tag : Ptrn → String
  | .pair .. => "pair_ptrn"
  | .any => "any_ptrn"
  | .value _ => "value_ptrn"
  | .ident _ => "ident_ptrn"
  | .self => "self_ptrn"
  | .const _ => "const_ptrn"
  | .literal _ => "literal_ptrn"

/-- The name of the behavior. -/
def Eqtn.tag (_ : Eqtn) : String :=
  "eqtn"

mutual

/-- The tags of an expression and of all below it, each node before its parts. -/
def Expr.tags : Expr → List String
  | .block vars stmt => (Expr.block vars stmt).tag :: stmt.tagsIn false
  | .pair head tail => (Expr.pair head tail).tag :: (head.tags ++ tail.tags)
  | .letIn vars eqtn expr => (Expr.letIn vars eqtn expr).tag :: (eqtn.tags ++ expr.tags)
  | .cond eqtn expr next =>
    (Expr.cond eqtn expr next).tag :: (eqtn.tags ++ expr.tags ++ next.tags)
  | .case expr next => (Expr.case expr next).tag :: (expr.tags ++ next.tags)
  | .new expr => (Expr.new expr).tag :: expr.tags
  | .app abs arg => (Expr.app abs arg).tag :: (abs.tags ++ arg.tags)
  | .abs ptrn body => (Expr.abs ptrn body).tag :: (ptrn.tags ++ body.tags)
  | e => [e.tag]

/-- The tags of a statement and of all below it. A chain has one tag, in front of those of its
statements: `linked` says that the statement is the rest of a chain whose tag was given. -/
def Stmt.tagsIn (linked : Bool) : Stmt → List String
  | .pair head tail =>
    let below := head.tagsIn false ++ tail.tagsIn true
    if linked then below else (Stmt.pair head tail).tag :: below
  | .empty => if linked then [] else [Stmt.empty.tag]
  | .expr expr => (Stmt.expr expr).tag :: expr.tags
  | .bind eqtn => (Stmt.bind eqtn).tag :: eqtn.tags
  | .send msg recipient => (Stmt.send msg recipient).tag :: (msg.tags ++ recipient.tags)
  | .afterSend delay msg recipient =>
    (Stmt.afterSend delay msg recipient).tag :: (delay.tags ++ msg.tags ++ recipient.tags)
  | .create name expr => (Stmt.create name expr).tag :: expr.tags
  | .become expr => (Stmt.become expr).tag :: expr.tags
  | .throw expr => (Stmt.throw expr).tag :: expr.tags

/-- The tags of the arms of a case distinction. -/
def Cases.tags : Cases → List String
  | .choice ptrn expr next =>
    (Cases.choice ptrn expr next).tag :: (ptrn.tags ++ expr.tags ++ next.tags)
  | .finish => [Cases.finish.tag]

/-- The tags of a pattern and of all below it. -/
def Ptrn.tags : Ptrn → List String
  | .pair head tail => (Ptrn.pair head tail).tag :: (head.tags ++ tail.tags)
  | .value expr => (Ptrn.value expr).tag :: expr.tags
  | p => [p.tag]

/-- The tags of an equation and of all below it. -/
def Eqtn.tags : Eqtn → List String
  | .mk left right => (Eqtn.mk left right).tag :: (left.tags ++ right.tags)

end

/-- The tags of a statement and of all below it, each node before its parts. -/
def Stmt.tags (s : Stmt) : List String :=
  s.tagsIn false

end Humus.Behavior

import Humus.Behavior.Document
import Humus.Proofs.Tree.Document

/-!
# Documents of behavior trees

A behavior tree can be told from its document: behaviors with different tags differ in their first
field, and those with the same tag in their parts.

## Main results

* `Expr.json_inj`, `Stmt.json_inj`, `Cases.json_inj`, `Ptrn.json_inj`, `Eqtn.json_inj`: behaviors
  with the same document are equal
-/

namespace Humus.Behavior

open Text (Json)
open Humus.Tree (Constant Literal)

theorem names_inj {vars vars' : List String} : names vars = names vars' ↔ vars = vars' := by
  rw [names, names, Json.array.injEq, List.map_inj_right fun _ _ => Json.string.inj]

mutual

theorem Expr.json_inj : (a b : Expr) → (a.json = b.json ↔ a = b)
  | .block vars stmt, b => by
    cases b <;> simp [Expr.json, node, Expr.tag, names_inj, Stmt.json_inj stmt]
  | .pair head tail, b => by
    cases b <;> simp [Expr.json, node, Expr.tag, Expr.json_inj head, Expr.json_inj tail]
  | .letIn vars eqtn expr, b => by
    cases b <;>
      simp [Expr.json, node, Expr.tag, names_inj, Eqtn.json_inj eqtn, Expr.json_inj expr]
  | .cond eqtn expr next, b => by
    cases b <;>
      simp [Expr.json, node, Expr.tag, Eqtn.json_inj eqtn, Expr.json_inj expr, Expr.json_inj next]
  | .case expr next, b => by
    cases b <;> simp [Expr.json, node, Expr.tag, Expr.json_inj expr, Cases.json_inj next]
  | .new expr, b => by cases b <;> simp [Expr.json, node, Expr.tag, Expr.json_inj expr]
  | .app abs arg, b => by
    cases b <;> simp [Expr.json, node, Expr.tag, Expr.json_inj abs, Expr.json_inj arg]
  | .ident name, b => by cases b <;> simp [Expr.json, node, Expr.tag]
  | .self, b => by cases b <;> simp [Expr.json, node, Expr.tag]
  | .abs ptrn body, b => by
    cases b <;> simp [Expr.json, node, Expr.tag, Ptrn.json_inj ptrn, Expr.json_inj body]
  | .const value, b => by cases b <;> simp [Expr.json, node, Expr.tag, Constant.json_inj]
  | .literal value, b => by cases b <;> simp [Expr.json, node, Expr.tag, Literal.json_inj]
termination_by structural a => a

theorem Stmt.json_inj : (a b : Stmt) → (a.json = b.json ↔ a = b)
  | .pair head tail, b => by
    cases b <;> simp [Stmt.json, node, Stmt.tag, Stmt.json_inj head, Stmt.json_inj tail]
  | .empty, b => by cases b <;> simp [Stmt.json, node, Stmt.tag]
  | .expr expr, b => by cases b <;> simp [Stmt.json, node, Stmt.tag, Expr.json_inj expr]
  | .bind eqtn, b => by cases b <;> simp [Stmt.json, node, Stmt.tag, Eqtn.json_inj eqtn]
  | .send msg recipient, b => by
    cases b <;> simp [Stmt.json, node, Stmt.tag, Expr.json_inj msg, Expr.json_inj recipient]
  | .afterSend delay msg recipient, b => by
    cases b <;>
      simp [Stmt.json, node, Stmt.tag, Expr.json_inj delay, Expr.json_inj msg,
        Expr.json_inj recipient]
  | .create name expr, b => by cases b <;> simp [Stmt.json, node, Stmt.tag, Expr.json_inj expr]
  | .become expr, b => by cases b <;> simp [Stmt.json, node, Stmt.tag, Expr.json_inj expr]
  | .throw expr, b => by cases b <;> simp [Stmt.json, node, Stmt.tag, Expr.json_inj expr]
termination_by structural a => a

theorem Cases.json_inj : (a b : Cases) → (a.json = b.json ↔ a = b)
  | .choice ptrn expr next, b => by
    cases b <;>
      simp [Cases.json, node, Cases.tag, Ptrn.json_inj ptrn, Expr.json_inj expr,
        Cases.json_inj next]
  | .finish, b => by cases b <;> simp [Cases.json, node, Cases.tag]
termination_by structural a => a

theorem Ptrn.json_inj : (a b : Ptrn) → (a.json = b.json ↔ a = b)
  | .pair head tail, b => by
    cases b <;> simp [Ptrn.json, node, Ptrn.tag, Ptrn.json_inj head, Ptrn.json_inj tail]
  | .any, b => by cases b <;> simp [Ptrn.json, node, Ptrn.tag]
  | .value expr, b => by cases b <;> simp [Ptrn.json, node, Ptrn.tag, Expr.json_inj expr]
  | .ident name, b => by cases b <;> simp [Ptrn.json, node, Ptrn.tag]
  | .self, b => by cases b <;> simp [Ptrn.json, node, Ptrn.tag]
  | .const value, b => by cases b <;> simp [Ptrn.json, node, Ptrn.tag, Constant.json_inj]
  | .literal value, b => by cases b <;> simp [Ptrn.json, node, Ptrn.tag, Literal.json_inj]
termination_by structural a => a

theorem Eqtn.json_inj : (a b : Eqtn) → (a.json = b.json ↔ a = b)
  | .mk left right, .mk left' right' => by
    simp [Eqtn.json, node, Eqtn.tag, Ptrn.json_inj left, Ptrn.json_inj right]
termination_by structural a => a

end

end Humus.Behavior

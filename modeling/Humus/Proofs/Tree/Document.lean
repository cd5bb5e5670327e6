import Humus.Tree.Document
import Mathlib.Logic.Basic

/-!
# Documents of syntax trees

A syntax tree can be told from its document: nodes of different kinds differ in their first field,
and nodes of one kind in their parts.

## Main results

* `Expr.json_inj`, `Stmt.json_inj`, `Ptrn.json_inj`, `Eqtn.json_inj`: parts of a syntax tree with
  the same document are equal
-/

namespace Humus

open Text (Json)

theorem Text.Json.char_inj {c d : Char} : Json.char c = Json.char d ↔ c = d := by
  simp [Json.char]

theorem Number.json_inj {m n : Number} : m.json = n.json ↔ m = n := by
  refine ⟨fun h => ?_, congrArg _⟩
  obtain ⟨sign, radix, digits⟩ := m
  obtain ⟨sign', radix', digits'⟩ := n
  have hfields : Json.option Json.char sign = Json.option Json.char sign' ∧
      Json.nat radix = Json.nat radix' ∧ digits = digits' := by
    simp only [Number.json, Json.object.injEq, List.cons.injEq, Prod.mk.injEq,
      Json.string.injEq, true_and] at h
    exact ⟨h.1, h.2.1, h.2.2.1⟩
  obtain ⟨hsign, hradix, rfl⟩ := hfields
  obtain rfl : radix = radix' := Int.ofNat.inj (Json.int.inj hradix)
  cases sign <;> cases sign' <;> simp_all [Json.option, Json.char]

namespace Tree

theorem Constant.json_inj {a b : Constant} : a.json = b.json ↔ a = b := by
  cases a <;> cases b <;> simp [Constant.json]

theorem Literal.json_inj {a b : Literal} : a.json = b.json ↔ a = b := by
  cases a <;> cases b <;> simp [Literal.json, Number.json_inj, Json.char_inj]

/-- The document of an expression is an object, which tells it from a missing one. -/
theorem Expr.json_ne_null (e : Expr) : e.json ≠ .null := by
  cases e <;> simp [Expr.json, node]

mutual

theorem Expr.json_inj : (a b : Expr) → (a.json = b.json ↔ a = b)
  | .pair head tail, b => by
    cases b <;> simp [Expr.json, node, Expr.json_inj head, Expr.json_inj tail]
  | .letIn eqtn body, b => by
    cases b <;> simp [Expr.json, node, Eqtn.json_inj eqtn, Expr.json_inj body]
  | .cond eqtn body next, b => by
    cases b <;> simp [Expr.json, node, Eqtn.json_inj eqtn, Expr.json_inj body, jsonOption_inj next]
  | .case subject arms, b => by
    cases b <;> simp [Expr.json, node, Expr.json_inj subject, jsonArms_inj arms]
  | .new expr, b => by cases b <;> simp [Expr.json, node, Expr.json_inj expr]
  | .app abs arg, b => by cases b <;> simp [Expr.json, node, Expr.json_inj abs, Expr.json_inj arg]
  | .ident name, b => by cases b <;> simp [Expr.json, node]
  | .block stmts, b => by cases b <;> simp [Expr.json, node, jsonStmts_inj stmts]
  | .self, b => by cases b <;> simp [Expr.json, node]
  | .abs ptrn body, b => by
    cases b <;> simp [Expr.json, node, Ptrn.json_inj ptrn, Expr.json_inj body]
  | .const value, b => by cases b <;> simp [Expr.json, node, Constant.json_inj]
  | .literal value, b => by cases b <;> simp [Expr.json, node, Literal.json_inj]
termination_by structural a => a

theorem jsonOption_inj : (a b : Option Expr) → (jsonOption a = jsonOption b ↔ a = b)
  | none, none => by simp
  | none, some b => by simp [jsonOption, (Expr.json_ne_null b).symm]
  | some a, none => by simp [jsonOption, Expr.json_ne_null a]
  | some a, some b => by simp [jsonOption, Expr.json_inj a]
termination_by structural a => a

theorem Stmt.json_inj : (a b : Stmt) → (a.json = b.json ↔ a = b)
  | .expr expr, b => by cases b <;> simp [Stmt.json, node, Expr.json_inj expr]
  | .bind eqtn, b => by cases b <;> simp [Stmt.json, node, Eqtn.json_inj eqtn]
  | .send msg recipient, b => by
    cases b <;> simp [Stmt.json, node, Expr.json_inj msg, Expr.json_inj recipient]
  | .afterSend delay msg recipient, b => by
    cases b <;>
      simp [Stmt.json, node, Expr.json_inj delay, Expr.json_inj msg, Expr.json_inj recipient]
  | .create name expr, b => by cases b <;> simp [Stmt.json, node, Expr.json_inj expr]
  | .become expr, b => by cases b <;> simp [Stmt.json, node, Expr.json_inj expr]
  | .throw expr, b => by cases b <;> simp [Stmt.json, node, Expr.json_inj expr]
termination_by structural a => a

theorem jsonStmts_inj : (as bs : List Stmt) → (jsonStmts as = jsonStmts bs ↔ as = bs)
  | [], bs => by cases bs <;> simp [jsonStmts]
  | a :: as, bs => by cases bs <;> simp [jsonStmts, Stmt.json_inj a, jsonStmts_inj as]
termination_by structural a => a

theorem Arm.json_inj : (a b : Arm) → (a.json = b.json ↔ a = b)
  | .mk ptrn expr, .mk ptrn' expr' => by simp [Arm.json, Ptrn.json_inj ptrn, Expr.json_inj expr]
termination_by structural a => a

theorem jsonArms_inj : (as bs : List Arm) → (jsonArms as = jsonArms bs ↔ as = bs)
  | [], bs => by cases bs <;> simp [jsonArms]
  | a :: as, bs => by cases bs <;> simp [jsonArms, Arm.json_inj a, jsonArms_inj as]
termination_by structural a => a

theorem Ptrn.json_inj : (a b : Ptrn) → (a.json = b.json ↔ a = b)
  | .pair head tail, b => by
    cases b <;> simp [Ptrn.json, node, Ptrn.json_inj head, Ptrn.json_inj tail]
  | .any, b => by cases b <;> simp [Ptrn.json, node]
  | .value expr, b => by cases b <;> simp [Ptrn.json, node, Expr.json_inj expr]
  | .ident name, b => by cases b <;> simp [Ptrn.json, node]
  | .self, b => by cases b <;> simp [Ptrn.json, node]
  | .const value, b => by cases b <;> simp [Ptrn.json, node, Constant.json_inj]
  | .literal value, b => by cases b <;> simp [Ptrn.json, node, Literal.json_inj]
termination_by structural a => a

theorem Eqtn.json_inj : (a b : Eqtn) → (a.json = b.json ↔ a = b)
  | .mk left right, .mk left' right' => by
    simp [Eqtn.json, Ptrn.json_inj left, Ptrn.json_inj right]
termination_by structural a => a

end

end Tree

end Humus

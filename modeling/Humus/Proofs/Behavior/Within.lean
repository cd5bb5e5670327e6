import Humus.Proofs.Behavior.Lowering
import Mathlib.Data.List.Forall2

/-!
# The expressions within a tree

The expressions within a behavior tree are those of the syntax tree that was lowered, one for one
and in the same order. Each is what lowering comes to for that expression alone.

## Main definitions

* `Tree.Expr.within`, `Behavior.Expr.within`: an expression and all expressions below it, at any
  depth

## Main results

* `lowered_within`: the expressions within a behavior tree are the lowered ones
-/

namespace Humus

open Humus.Tree (Expr Stmt Arm Ptrn Eqtn)

namespace Tree

mutual

/-- The expression and those below it, each before its parts. A second branch that is missing counts
as the undefined constant. -/
def Expr.within : Expr → List Expr
  | .pair head tail => .pair head tail :: (head.within ++ tail.within)
  | .letIn eqtn body => .letIn eqtn body :: (eqtn.within ++ body.within)
  | .cond eqtn body next =>
    .cond eqtn body next :: (eqtn.within ++ (body.within ++ withinOption next))
  | .case subject arms => .case subject arms :: (subject.within ++ withinArms arms)
  | .new expr => .new expr :: expr.within
  | .app abs arg => .app abs arg :: (abs.within ++ arg.within)
  | .block stmts => .block stmts :: withinStmts stmts
  | .abs ptrn body => .abs ptrn body :: (ptrn.within ++ body.within)
  | .ident name => [.ident name]
  | .self => [.self]
  | .const value => [.const value]
  | .literal value => [.literal value]

/-- The expressions within a second branch. -/
def withinOption : Option Expr → List Expr
  | none => [.const .undefined]
  | some next => next.within

/-- The expressions within some statements. -/
def withinStmts : List Stmt → List Expr
  | [] => []
  | s :: ss => s.within ++ withinStmts ss

/-- The expressions within a statement. -/
def Stmt.within : Stmt → List Expr
  | .expr expr | .create _ expr | .become expr | .throw expr => expr.within
  | .bind eqtn => eqtn.within
  | .send msg recipient => msg.within ++ recipient.within
  | .afterSend delay msg recipient => delay.within ++ (msg.within ++ recipient.within)

/-- The expressions within some arms. -/
def withinArms : List Arm → List Expr
  | [] => []
  | .mk ptrn expr :: arms => ptrn.within ++ (expr.within ++ withinArms arms)

/-- The expressions within a pattern. -/
def Ptrn.within : Ptrn → List Expr
  | .pair head tail => head.within ++ tail.within
  | .value expr => expr.within
  | .any | .ident _ | .self | .const _ | .literal _ => []

/-- The expressions within an equation. -/
def Eqtn.within : Eqtn → List Expr
  | .mk left right => left.within ++ right.within

end

end Tree

namespace Behavior

mutual

/-- The expression and those below it, each before its parts. -/
def Expr.within : Expr → List Expr
  | .block vars stmt => .block vars stmt :: stmt.within
  | .pair head tail => .pair head tail :: (head.within ++ tail.within)
  | .letIn vars eqtn expr => .letIn vars eqtn expr :: (eqtn.within ++ expr.within)
  | .cond eqtn expr next => .cond eqtn expr next :: (eqtn.within ++ (expr.within ++ next.within))
  | .case expr next => .case expr next :: (expr.within ++ next.within)
  | .new expr => .new expr :: expr.within
  | .app abs arg => .app abs arg :: (abs.within ++ arg.within)
  | .abs ptrn body => .abs ptrn body :: (ptrn.within ++ body.within)
  | .ident name => [.ident name]
  | .self => [.self]
  | .const value => [.const value]
  | .literal value => [.literal value]

/-- The expressions within a statement. -/
def Stmt.within : Stmt → List Expr
  | .pair head tail => head.within ++ tail.within
  | .empty => []
  | .expr expr | .create _ expr | .become expr | .throw expr => expr.within
  | .bind eqtn => eqtn.within
  | .send msg recipient => msg.within ++ recipient.within
  | .afterSend delay msg recipient => delay.within ++ (msg.within ++ recipient.within)

/-- The expressions within the arms of a case distinction. -/
def Cases.within : Cases → List Expr
  | .choice ptrn expr next => ptrn.within ++ (expr.within ++ next.within)
  | .finish => []

/-- The expressions within a pattern. -/
def Ptrn.within : Ptrn → List Expr
  | .pair head tail => head.within ++ tail.within
  | .value expr => expr.within
  | .any | .ident _ | .self | .const _ | .literal _ => []

/-- The expressions within an equation. -/
def Eqtn.within : Eqtn → List Expr
  | .mk left right => left.within ++ right.within

end

end Behavior

namespace Tree

/-! ## What is within a behavior -/

mutual

theorem within_behavior : (e : Expr) → e.behavior.within = e.within.map Expr.behavior
  | .pair head tail => by
    simp [Expr.behavior, Expr.within, Behavior.Expr.within, within_behavior head,
      within_behavior tail]
  | .letIn eqtn body => by
    simp [Expr.behavior, Expr.within, Behavior.Expr.within, within_behaviorEqtn eqtn,
      within_behavior body]
  | .cond eqtn body next => by
    simp [Expr.behavior, Expr.within, Behavior.Expr.within, within_behaviorEqtn eqtn,
      within_behavior body, within_behaviorOption next]
  | .case subject arms => by
    simp [Expr.behavior, Expr.within, Behavior.Expr.within, within_behavior subject,
      within_behaviorArms arms]
  | .new expr => by
    simp [Expr.behavior, Expr.within, Behavior.Expr.within, within_behavior expr]
  | .app abs arg => by
    simp [Expr.behavior, Expr.within, Behavior.Expr.within, within_behavior abs,
      within_behavior arg]
  | .block stmts => by
    simp [Expr.behavior, Expr.within, Behavior.Expr.within, within_behaviorStmts stmts]
  | .abs ptrn body => by
    simp [Expr.behavior, Expr.within, Behavior.Expr.within, within_behaviorPtrn ptrn,
      within_behavior body]
  | .ident _ | .self | .const _ | .literal _ => rfl

theorem within_behaviorOption : (next : Option Expr) →
    (behaviorOption next).within = (withinOption next).map Expr.behavior
  | none => rfl
  | some next => within_behavior next

theorem within_behaviorStmts : (stmts : List Stmt) →
    (Behavior.Stmt.chain (behaviorStmts stmts)).within = (withinStmts stmts).map Expr.behavior
  | [] => rfl
  | s :: ss => by
    simp [behaviorStmts, Behavior.Stmt.chain, withinStmts, Behavior.Stmt.within,
      within_behaviorStmt s, within_behaviorStmts ss]

theorem within_behaviorStmt : (s : Stmt) → s.behavior.within = s.within.map Expr.behavior
  | .expr expr | .create _ expr | .become expr | .throw expr => within_behavior expr
  | .bind eqtn => within_behaviorEqtn eqtn
  | .send msg recipient => by
    simp [Stmt.behavior, Stmt.within, Behavior.Stmt.within, within_behavior msg,
      within_behavior recipient]
  | .afterSend delay msg recipient => by
    simp [Stmt.behavior, Stmt.within, Behavior.Stmt.within, within_behavior delay,
      within_behavior msg, within_behavior recipient]

theorem within_behaviorArms : (arms : List Arm) →
    (behaviorArms arms).within = (withinArms arms).map Expr.behavior
  | [] => rfl
  | .mk ptrn expr :: arms => by
    simp [behaviorArms, withinArms, Behavior.Cases.within, within_behaviorPtrn ptrn,
      within_behavior expr, within_behaviorArms arms]

theorem within_behaviorPtrn : (p : Ptrn) → p.behavior.within = p.within.map Expr.behavior
  | .pair head tail => by
    simp [Ptrn.behavior, Ptrn.within, Behavior.Ptrn.within, within_behaviorPtrn head,
      within_behaviorPtrn tail]
  | .value expr => within_behavior expr
  | .any | .ident _ | .self | .const _ | .literal _ => rfl

theorem within_behaviorEqtn : (e : Eqtn) → e.behavior.within = e.within.map Expr.behavior
  | .mk left right => by
    simp [Eqtn.behavior, Eqtn.within, Behavior.Eqtn.within, within_behaviorPtrn left,
      within_behaviorPtrn right]

end

/-! ## What holds of the numbers of a tree -/

section Numbers

variable {P : Number → Prop}

mutual

/-- What holds of the numbers of an expression holds of those of every expression within it. -/
theorem numbers_within : (e : Expr) → (∀ n ∈ e.numbers, P n) →
    ∀ x ∈ e.within, ∀ n ∈ x.numbers, P n
  | .pair head tail, h => by
    rw [Expr.within, List.forall_mem_cons, List.forall_mem_append]
    refine ⟨h, ?_⟩
    rw [Expr.numbers, List.forall_mem_append] at h
    exact ⟨numbers_within head h.1, numbers_within tail h.2⟩
  | .letIn eqtn body, h => by
    rw [Expr.within, List.forall_mem_cons, List.forall_mem_append]
    refine ⟨h, ?_⟩
    rw [Expr.numbers, List.forall_mem_append] at h
    exact ⟨numbers_withinEqtn eqtn h.1, numbers_within body h.2⟩
  | .cond eqtn body next, h => by
    rw [Expr.within, List.forall_mem_cons, List.forall_mem_append, List.forall_mem_append]
    refine ⟨h, ?_⟩
    rw [Expr.numbers, List.forall_mem_append, List.forall_mem_append] at h
    exact ⟨numbers_withinEqtn eqtn h.2.1, numbers_within body h.2.2,
      numbers_withinOption next h.1⟩
  | .case subject arms, h => by
    rw [Expr.within, List.forall_mem_cons, List.forall_mem_append]
    refine ⟨h, ?_⟩
    rw [Expr.numbers, List.forall_mem_append] at h
    exact ⟨numbers_within subject h.1, numbers_withinArms arms h.2⟩
  | .new expr, h => by
    rw [Expr.within, List.forall_mem_cons]
    exact ⟨h, numbers_within expr h⟩
  | .app abs arg, h => by
    rw [Expr.within, List.forall_mem_cons, List.forall_mem_append]
    refine ⟨h, ?_⟩
    rw [Expr.numbers, List.forall_mem_append] at h
    exact ⟨numbers_within abs h.1, numbers_within arg h.2⟩
  | .block stmts, h => by
    rw [Expr.within, List.forall_mem_cons]
    exact ⟨h, numbers_withinStmts stmts h⟩
  | .abs ptrn body, h => by
    rw [Expr.within, List.forall_mem_cons, List.forall_mem_append]
    refine ⟨h, ?_⟩
    rw [Expr.numbers, List.forall_mem_append] at h
    exact ⟨numbers_withinPtrn ptrn h.1, numbers_within body h.2⟩
  | .ident _, h | .self, h | .const _, h | .literal _, h => by
    rw [Expr.within, List.forall_mem_singleton]
    exact h

theorem numbers_withinOption : (next : Option Expr) → (∀ n ∈ numbersOption next, P n) →
    ∀ x ∈ withinOption next, ∀ n ∈ x.numbers, P n
  | none, h => by
    rw [withinOption, List.forall_mem_singleton]
    exact h
  | some next, h => numbers_within next h

theorem numbers_withinStmts : (stmts : List Stmt) → (∀ n ∈ numbersStmts stmts, P n) →
    ∀ x ∈ withinStmts stmts, ∀ n ∈ x.numbers, P n
  | [], _ => List.forall_mem_nil _
  | s :: ss, h => by
    rw [numbersStmts, List.forall_mem_append] at h
    rw [withinStmts, List.forall_mem_append]
    exact ⟨numbers_withinStmt s h.1, numbers_withinStmts ss h.2⟩

theorem numbers_withinStmt : (s : Stmt) → (∀ n ∈ s.numbers, P n) →
    ∀ x ∈ s.within, ∀ n ∈ x.numbers, P n
  | .expr expr, h | .create _ expr, h | .become expr, h | .throw expr, h => numbers_within expr h
  | .bind eqtn, h => numbers_withinEqtn eqtn h
  | .send msg recipient, h => by
    rw [Stmt.numbers, List.forall_mem_append] at h
    rw [Stmt.within, List.forall_mem_append]
    exact ⟨numbers_within msg h.1, numbers_within recipient h.2⟩
  | .afterSend delay msg recipient, h => by
    rw [Stmt.numbers, List.forall_mem_append, List.forall_mem_append] at h
    rw [Stmt.within, List.forall_mem_append, List.forall_mem_append]
    exact ⟨numbers_within delay h.1, numbers_within msg h.2.1, numbers_within recipient h.2.2⟩

theorem numbers_withinArms : (arms : List Arm) → (∀ n ∈ numbersArms arms, P n) →
    ∀ x ∈ withinArms arms, ∀ n ∈ x.numbers, P n
  | [], _ => List.forall_mem_nil _
  | .mk ptrn expr :: arms, h => by
    rw [numbersArms, List.forall_mem_append, List.forall_mem_append] at h
    rw [withinArms, List.forall_mem_append, List.forall_mem_append]
    exact ⟨numbers_withinPtrn ptrn h.2.1, numbers_within expr h.2.2, numbers_withinArms arms h.1⟩

theorem numbers_withinPtrn : (p : Ptrn) → (∀ n ∈ p.numbers, P n) →
    ∀ x ∈ p.within, ∀ n ∈ x.numbers, P n
  | .pair head tail, h => by
    rw [Ptrn.numbers, List.forall_mem_append] at h
    rw [Ptrn.within, List.forall_mem_append]
    exact ⟨numbers_withinPtrn head h.1, numbers_withinPtrn tail h.2⟩
  | .value expr, h => numbers_within expr h
  | .any, _ | .ident _, _ | .self, _ | .const _, _ | .literal _, _ => List.forall_mem_nil _

theorem numbers_withinEqtn : (e : Eqtn) → (∀ n ∈ e.numbers, P n) →
    ∀ x ∈ e.within, ∀ n ∈ x.numbers, P n
  | .mk left right, h => by
    rw [Eqtn.numbers, List.forall_mem_append] at h
    rw [Eqtn.within, List.forall_mem_append]
    exact ⟨numbers_withinPtrn left h.1, numbers_withinPtrn right h.2⟩

end

end Numbers

end Tree

/-- **The expressions within a behavior tree** are those of the syntax tree, lowered, one for one
and in order. -/
theorem lowered_within {e : Expr} {b : Behavior.Expr} (h : lowerExpr e = .ok b) :
    List.Forall₂ (fun e b => lowerExpr e = .ok b) e.within b.within := by
  obtain ⟨hvalues, rfl⟩ := lowerExpr_eq_ok_iff.mp h
  rw [Tree.within_behavior, List.forall₂_map_right_iff, List.forall₂_same]
  intro x hx
  exact lowerExpr_eq_ok_iff.mpr ⟨Tree.numbers_within e hvalues x hx, rfl⟩

end Humus

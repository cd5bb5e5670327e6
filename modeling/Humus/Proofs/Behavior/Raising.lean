import Humus.Proofs.Behavior.Within

/-!
# Raising behavior trees

A behavior tree can be raised to a syntax tree again. Raising the behavior of a program gives the
program, except that a second branch that was missing is now the undefined constant. So nothing else
is lost, and no part of a program is dropped or moved.

## Main definitions

* `Tree.Expr.filled`: an expression whose conditionals all have a second branch
* `Behavior.Expr.raise`: the syntax tree that a behavior tree stands for
* `KeepsOrder e b`: the chain of the behavior `b` has the lowered parts of `e`, in order

## Main results

* `raise_behavior`: raising the behavior of an expression gives the expression, filled
* `lowering_loses_nothing`: what a behavior tree says of its program
-/

namespace Humus

open Lowering (runIn checked_eq_ok_iff lowers_ptrn)
open Humus.Tree (Expr Stmt Arm Ptrn Eqtn)

namespace Tree

mutual

/-- The expression with the undefined constant for every second branch that is missing. -/
def Expr.filled : Expr → Expr
  | .pair head tail => .pair head.filled tail.filled
  | .letIn eqtn body => .letIn eqtn.filled body.filled
  | .cond eqtn body next => .cond eqtn.filled body.filled (some (filledOption next))
  | .case subject arms => .case subject.filled (filledArms arms)
  | .new expr => .new expr.filled
  | .app abs arg => .app abs.filled arg.filled
  | .ident name => .ident name
  | .block stmts => .block (filledStmts stmts)
  | .self => .self
  | .abs ptrn body => .abs ptrn.filled body.filled
  | .const value => .const value
  | .literal value => .literal value

/-- The second branch, or the undefined constant. -/
def filledOption : Option Expr → Expr
  | none => .const .undefined
  | some next => next.filled

/-- The statements with every second branch. -/
def filledStmts : List Stmt → List Stmt
  | [] => []
  | s :: ss => s.filled :: filledStmts ss

/-- The statement with every second branch. -/
def Stmt.filled : Stmt → Stmt
  | .expr expr => .expr expr.filled
  | .bind eqtn => .bind eqtn.filled
  | .send msg recipient => .send msg.filled recipient.filled
  | .afterSend delay msg recipient => .afterSend delay.filled msg.filled recipient.filled
  | .create name expr => .create name expr.filled
  | .become expr => .become expr.filled
  | .throw expr => .throw expr.filled

/-- The arms with every second branch. -/
def filledArms : List Arm → List Arm
  | [] => []
  | .mk ptrn expr :: arms => .mk ptrn.filled expr.filled :: filledArms arms

/-- The pattern with every second branch. -/
def Ptrn.filled : Ptrn → Ptrn
  | .pair head tail => .pair head.filled tail.filled
  | .any => .any
  | .value expr => .value expr.filled
  | .ident name => .ident name
  | .self => .self
  | .const value => .const value
  | .literal value => .literal value

/-- The equation with every second branch. -/
def Eqtn.filled : Eqtn → Eqtn
  | .mk left right => .mk left.filled right.filled

end

end Tree

namespace Behavior

mutual

/-- The expression whose behavior it is. The names of scopes are those of its statements and are not
looked at. -/
def Expr.raise : Expr → Tree.Expr
  | .block _ stmt => .block stmt.raise
  | .pair head tail => .pair head.raise tail.raise
  | .letIn _ eqtn expr => .letIn eqtn.raise expr.raise
  | .cond eqtn expr next => .cond eqtn.raise expr.raise (some next.raise)
  | .case expr next => .case expr.raise next.raise
  | .new expr => .new expr.raise
  | .app abs arg => .app abs.raise arg.raise
  | .ident name => .ident name
  | .self => .self
  | .abs ptrn body => .abs ptrn.raise body.raise
  | .const value => .const value
  | .literal value => .literal value

/-- The statements of a chain, or the only statement that it is. -/
def Stmt.raise : Stmt → List Tree.Stmt
  | .pair head tail => head.raise ++ tail.raise
  | .empty => []
  | .expr expr => [.expr expr.raise]
  | .bind eqtn => [.bind eqtn.raise]
  | .send msg recipient => [.send msg.raise recipient.raise]
  | .afterSend delay msg recipient => [.afterSend delay.raise msg.raise recipient.raise]
  | .create name expr => [.create name expr.raise]
  | .become expr => [.become expr.raise]
  | .throw expr => [.throw expr.raise]

/-- The arms of a chain. -/
def Cases.raise : Cases → List Tree.Arm
  | .choice ptrn expr next => .mk ptrn.raise expr.raise :: next.raise
  | .finish => []

/-- The pattern whose behavior it is. -/
def Ptrn.raise : Ptrn → Tree.Ptrn
  | .pair head tail => .pair head.raise tail.raise
  | .any => .any
  | .value expr => .value expr.raise
  | .ident name => .ident name
  | .self => .self
  | .const value => .const value
  | .literal value => .literal value

/-- The equation whose behavior it is. -/
def Eqtn.raise : Eqtn → Tree.Eqtn
  | .mk left right => .mk left.raise right.raise

end

/-- The arms of a case distinction, up to its end. -/
def Cases.arms : Cases → List (Ptrn × Expr)
  | .choice ptrn expr next => (ptrn, expr) :: next.arms
  | .finish => []

end Behavior

namespace Tree

/-! ## Raising what was lowered -/

mutual

theorem raise_behavior : (e : Expr) → e.behavior.raise = e.filled
  | .pair head tail => by
    rw [Expr.behavior, Expr.filled, Behavior.Expr.raise, raise_behavior head, raise_behavior tail]
  | .letIn eqtn body => by
    rw [Expr.behavior, Expr.filled, Behavior.Expr.raise, raise_behaviorEqtn eqtn,
      raise_behavior body]
  | .cond eqtn body next => by
    rw [Expr.behavior, Expr.filled, Behavior.Expr.raise, raise_behaviorEqtn eqtn,
      raise_behavior body, raise_behaviorOption next]
  | .case subject arms => by
    rw [Expr.behavior, Expr.filled, Behavior.Expr.raise, raise_behavior subject,
      raise_behaviorArms arms]
  | .new expr => by rw [Expr.behavior, Expr.filled, Behavior.Expr.raise, raise_behavior expr]
  | .app abs arg => by
    rw [Expr.behavior, Expr.filled, Behavior.Expr.raise, raise_behavior abs, raise_behavior arg]
  | .block stmts => by
    rw [Expr.behavior, Expr.filled, Behavior.Expr.raise, raise_behaviorStmts stmts]
  | .abs ptrn body => by
    rw [Expr.behavior, Expr.filled, Behavior.Expr.raise, raise_behaviorPtrn ptrn,
      raise_behavior body]
  | .ident _ | .self | .const _ | .literal _ => rfl

theorem raise_behaviorOption : (next : Option Expr) → (behaviorOption next).raise = filledOption next
  | none => rfl
  | some next => raise_behavior next

theorem raise_behaviorStmts : (stmts : List Stmt) →
    (Behavior.Stmt.chain (behaviorStmts stmts)).raise = filledStmts stmts
  | [] => rfl
  | s :: ss => by
    rw [behaviorStmts, filledStmts, Behavior.Stmt.chain, Behavior.Stmt.raise, raise_behaviorStmt s,
      raise_behaviorStmts ss, List.singleton_append]

theorem raise_behaviorStmt : (s : Stmt) → s.behavior.raise = [s.filled]
  | .expr expr | .create _ expr | .become expr | .throw expr => by
    rw [Stmt.behavior, Stmt.filled, Behavior.Stmt.raise, raise_behavior expr]
  | .bind eqtn => by
    rw [Stmt.behavior, Stmt.filled, Behavior.Stmt.raise, raise_behaviorEqtn eqtn]
  | .send msg recipient => by
    rw [Stmt.behavior, Stmt.filled, Behavior.Stmt.raise, raise_behavior msg,
      raise_behavior recipient]
  | .afterSend delay msg recipient => by
    rw [Stmt.behavior, Stmt.filled, Behavior.Stmt.raise, raise_behavior delay, raise_behavior msg,
      raise_behavior recipient]

theorem raise_behaviorArms : (arms : List Arm) → (behaviorArms arms).raise = filledArms arms
  | [] => rfl
  | .mk ptrn expr :: arms => by
    rw [behaviorArms, filledArms, Behavior.Cases.raise, raise_behaviorPtrn ptrn,
      raise_behavior expr, raise_behaviorArms arms]

theorem raise_behaviorPtrn : (p : Ptrn) → p.behavior.raise = p.filled
  | .pair head tail => by
    rw [Ptrn.behavior, Ptrn.filled, Behavior.Ptrn.raise, raise_behaviorPtrn head,
      raise_behaviorPtrn tail]
  | .value expr => by rw [Ptrn.behavior, Ptrn.filled, Behavior.Ptrn.raise, raise_behavior expr]
  | .any | .ident _ | .self | .const _ | .literal _ => rfl

theorem raise_behaviorEqtn : (e : Eqtn) → e.behavior.raise = e.filled
  | .mk left right => by
    rw [Eqtn.behavior, Eqtn.filled, Behavior.Eqtn.raise, raise_behaviorPtrn left,
      raise_behaviorPtrn right]

end

/-! ## Lowering what was filled -/

theorem names_filledPtrn : (p : Ptrn) → p.filled.names = p.names
  | .pair head tail => by
    rw [Ptrn.filled, Ptrn.names, Ptrn.names, names_filledPtrn head, names_filledPtrn tail]
  | .any | .value _ | .ident _ | .self | .const _ | .literal _ => rfl

theorem names_filledEqtn (e : Eqtn) : e.filled.names = e.names := by
  cases e with
  | mk left right => rw [Eqtn.filled, Eqtn.names, Eqtn.names, names_filledPtrn, names_filledPtrn]

theorem names_filledStmt (s : Stmt) : s.filled.names = s.names := by
  cases s with
  | bind eqtn => exact names_filledEqtn eqtn
  | _ => rfl

theorem names_filledStmts (stmts : List Stmt) :
    (filledStmts stmts).flatMap Stmt.names = stmts.flatMap Stmt.names := by
  induction stmts with
  | nil => rfl
  | cons s ss ih => rw [filledStmts, List.flatMap_cons, List.flatMap_cons, names_filledStmt, ih]

mutual

/-- A tree and the filled one have the same behavior and the same numbers. -/
theorem lowers_filled : (e : Expr) → e.filled.behavior = e.behavior ∧ e.filled.numbers = e.numbers
  | .pair head tail => by
    simp [Expr.filled, Expr.behavior, Expr.numbers, lowers_filled head, lowers_filled tail]
  | .letIn eqtn body => by
    simp [Expr.filled, Expr.behavior, Expr.numbers, names_filledEqtn, lowers_filledEqtn eqtn,
      lowers_filled body]
  | .cond eqtn body next => by
    simp [Expr.filled, Expr.behavior, Expr.numbers, behaviorOption, numbersOption,
      lowers_filledEqtn eqtn, lowers_filled body, lowers_filledOption next]
  | .case subject arms => by
    simp [Expr.filled, Expr.behavior, Expr.numbers, lowers_filled subject, lowers_filledArms arms]
  | .new expr => by simp [Expr.filled, Expr.behavior, Expr.numbers, lowers_filled expr]
  | .app abs arg => by
    simp [Expr.filled, Expr.behavior, Expr.numbers, lowers_filled abs, lowers_filled arg]
  | .block stmts => by
    simp [Expr.filled, Expr.behavior, Expr.numbers, names_filledStmts, lowers_filledStmts stmts]
  | .abs ptrn body => by
    simp [Expr.filled, Expr.behavior, Expr.numbers, lowers_filledPtrn ptrn, lowers_filled body]
  | .ident _ | .self | .const _ | .literal _ => ⟨rfl, rfl⟩

theorem lowers_filledOption : (next : Option Expr) →
    (filledOption next).behavior = behaviorOption next ∧
      (filledOption next).numbers = numbersOption next
  | none => ⟨rfl, rfl⟩
  | some next => lowers_filled next

theorem lowers_filledStmts : (stmts : List Stmt) →
    behaviorStmts (filledStmts stmts) = behaviorStmts stmts ∧
      numbersStmts (filledStmts stmts) = numbersStmts stmts
  | [] => ⟨rfl, rfl⟩
  | s :: ss => by
    simp [filledStmts, behaviorStmts, numbersStmts, lowers_filledStmt s, lowers_filledStmts ss]

theorem lowers_filledStmt : (s : Stmt) →
    s.filled.behavior = s.behavior ∧ s.filled.numbers = s.numbers
  | .expr expr | .create _ expr | .become expr | .throw expr => by
    simp [Stmt.filled, Stmt.behavior, Stmt.numbers, lowers_filled expr]
  | .bind eqtn => by simp [Stmt.filled, Stmt.behavior, Stmt.numbers, lowers_filledEqtn eqtn]
  | .send msg recipient => by
    simp [Stmt.filled, Stmt.behavior, Stmt.numbers, lowers_filled msg, lowers_filled recipient]
  | .afterSend delay msg recipient => by
    simp [Stmt.filled, Stmt.behavior, Stmt.numbers, lowers_filled delay, lowers_filled msg,
      lowers_filled recipient]

theorem lowers_filledArms : (arms : List Arm) →
    behaviorArms (filledArms arms) = behaviorArms arms ∧
      numbersArms (filledArms arms) = numbersArms arms
  | [] => ⟨rfl, rfl⟩
  | .mk ptrn expr :: arms => by
    simp [filledArms, behaviorArms, numbersArms, lowers_filledPtrn ptrn, lowers_filled expr,
      lowers_filledArms arms]

theorem lowers_filledPtrn : (p : Ptrn) →
    p.filled.behavior = p.behavior ∧ p.filled.numbers = p.numbers
  | .pair head tail => by
    simp [Ptrn.filled, Ptrn.behavior, Ptrn.numbers, lowers_filledPtrn head,
      lowers_filledPtrn tail]
  | .value expr => by simp [Ptrn.filled, Ptrn.behavior, Ptrn.numbers, lowers_filled expr]
  | .any | .ident _ | .self | .const _ | .literal _ => ⟨rfl, rfl⟩

theorem lowers_filledEqtn : (e : Eqtn) →
    e.filled.behavior = e.behavior ∧ e.filled.numbers = e.numbers
  | .mk left right => by
    simp [Eqtn.filled, Eqtn.behavior, Eqtn.numbers, lowers_filledPtrn left,
      lowers_filledPtrn right]

end

end Tree

/-- Filling a tree changes nothing of what lowering comes to. -/
theorem lowerExpr_filled (e : Expr) : lowerExpr e.filled = lowerExpr e := by
  rw [lowerExpr, lowerExpr, run_lowerExpr, run_lowerExpr, (Tree.lowers_filled e).1,
    (Tree.lowers_filled e).2]

/-- An expression has the behavior of another one exactly if both are equal when filled. -/
theorem lowerExpr_eq_ok_iff_filled {e e' : Expr} {b : Behavior.Expr} (h : lowerExpr e = .ok b) :
    lowerExpr e' = .ok b ↔ e'.filled = e.filled := by
  constructor
  · intro h'
    obtain ⟨-, rfl⟩ := lowerExpr_eq_ok_iff.mp h
    obtain ⟨-, hb⟩ := lowerExpr_eq_ok_iff.mp h'
    rw [← Tree.raise_behavior, ← Tree.raise_behavior, hb]
  · intro hfilled
    rw [← lowerExpr_filled, hfilled, lowerExpr_filled, h]

/-! ## Chains -/

/-- The arm of a case distinction, lowered. -/
def LowersArm : Arm → Behavior.Ptrn × Behavior.Expr → Prop
  | .mk ptrn expr, (p, b) =>
    (runIn [] (Lowering.lowerPtrn false ptrn)).1 = .ok p ∧ lowerExpr expr = .ok b

/-- The behavior of a block is the chain of its lowered statements, and that of a case distinction
the chain of its lowered arms, in order. -/
inductive KeepsOrder : Expr → Behavior.Expr → Prop where
  | block {stmts vars stmt} : stmt = .chain stmt.links →
      List.Forall₂ (fun s s' => lowerStmt s = .ok s') stmts stmt.links →
      KeepsOrder (.block stmts) (.block vars stmt)
  | case {subject arms subject' next} :
      List.Forall₂ LowersArm arms next.arms →
      KeepsOrder (.case subject arms) (.case subject' next)
  | other {e b} : (∀ vars stmt, b ≠ .block vars stmt) →
      (∀ subject next, b ≠ .case subject next) → KeepsOrder e b

theorem forall₂_lowerStmt : (stmts : List Stmt) →
    (∀ n ∈ Tree.numbersStmts stmts, n.value?.isSome) →
    List.Forall₂ (fun s s' => lowerStmt s = .ok s') stmts (Tree.behaviorStmts stmts)
  | [], _ => .nil
  | s :: ss, h => by
    rw [Tree.numbersStmts, List.forall_mem_append] at h
    exact .cons (lowerStmt_eq_ok_iff.mpr ⟨h.1, rfl⟩) (forall₂_lowerStmt ss h.2)

theorem forall₂_lowersArm : (arms : List Arm) →
    (∀ n ∈ Tree.numbersArms arms, n.value?.isSome) →
    List.Forall₂ LowersArm arms (Tree.behaviorArms arms).arms
  | [], _ => .nil
  | .mk ptrn expr :: arms, h => by
    rw [Tree.numbersArms, List.forall_mem_append, List.forall_mem_append] at h
    refine .cons ⟨?_, lowerExpr_eq_ok_iff.mpr ⟨h.2.2, rfl⟩⟩ (forall₂_lowersArm arms h.1)
    rw [(lowers_ptrn false ptrn).runIn_nil]
    exact checked_eq_ok_iff.mpr ⟨h.2.1, rfl⟩

theorem keepsOrder_of_lowerExpr {e : Expr} {b : Behavior.Expr} (h : lowerExpr e = .ok b) :
    KeepsOrder e b := by
  obtain ⟨hvalues, rfl⟩ := lowerExpr_eq_ok_iff.mp h
  cases e with
  | block stmts =>
    have hlinks := Behavior.Stmt.links_chain (Tree.behaviorStmts stmts)
    exact .block (by rw [hlinks]) (hlinks.symm ▸ forall₂_lowerStmt stmts hvalues)
  | case subject arms =>
    rw [Expr.numbers, List.forall_mem_append] at hvalues
    exact .case (forall₂_lowersArm arms hvalues.2)
  | _ => exact .other (fun _ _ => Behavior.Expr.noConfusion) fun _ _ => Behavior.Expr.noConfusion

/-- **Lowering loses nothing.** Raising the behavior tree of a program gives the program, with the
undefined constant for every second branch that is missing. The programs with the same behavior tree
are those that are equal to it after this. The expressions in the tree are those of the program,
lowered: the chain of a block has exactly its lowered statements, and the chain of a case distinction
exactly its lowered arms, in order. -/
theorem lowering_loses_nothing {program : List Stmt} {b : Behavior.Expr}
    (h : lowerProgram program = .ok b) :
    b.raise = .block (Tree.filledStmts program) ∧
      (∀ other, lowerProgram other = .ok b ↔
        Tree.filledStmts other = Tree.filledStmts program) ∧
      List.Forall₂ (fun e x => lowerExpr e = .ok x ∧ KeepsOrder e x)
        (Expr.block program).within b.within := by
  have hb := (lowerExpr_eq_ok_iff.mp h).2
  refine ⟨?_, fun other => ?_, ?_⟩
  · rw [← hb, Tree.raise_behavior, Expr.filled]
  · rw [lowerProgram_eq, lowerExpr_eq_ok_iff_filled h, Expr.filled, Expr.filled, Expr.block.injEq]
  · exact (lowered_within h).imp fun e x hx => ⟨hx, keepsOrder_of_lowerExpr hx⟩

/-- A program with two missing branches: `CASE x OF _ : IF y = _ SELF  z : IF y = _ SELF END`. -/
def missingBranches : List Stmt :=
  [.expr (.case (.ident "x") [
    .mk .any (.cond (.mk (.ident "y") .any) .self none),
    .mk (.ident "z") (.cond (.mk (.ident "y") .any) .self none)])]

theorem lowering_loses_nothing_missingBranches :
    ∃ b, lowerProgram missingBranches = .ok b ∧
      b.raise = .block (Tree.filledStmts missingBranches) ∧
      ∀ other, lowerProgram other = .ok b ↔
        Tree.filledStmts other = Tree.filledStmts missingBranches :=
  have h : lowerProgram missingBranches = .ok (Expr.block missingBranches).behavior :=
    lowerExpr_eq_ok_iff.mpr ⟨List.forall_mem_nil _, rfl⟩
  ⟨_, h, (lowering_loses_nothing h).1, (lowering_loses_nothing h).2.1⟩

end Humus

import Humus.Proofs.Behavior.Within
import Mathlib.Data.List.Nodup

/-!
# The names of scopes

A block declares the names that its own statements bind, and a local equation its own identifiers.
What is bound further inside, by a block, a local equation, a conditional, a case distinction or an
abstraction, is declared there or nowhere, since lowering an expression leaves the open scopes as
they were.

## Main definitions

* `Declaration names vars`: `vars` declares the names, each of them once
* `DeclaresOwn e b`: the behavior `b` of `e` declares the names that belong to it

## Main results

* `scopes_declare_own_names`: what the blocks and local equations of a behavior tree declare
-/

namespace Humus

open Lowering (runIn)
open Humus.Tree (Expr Stmt Eqtn)

namespace Lowering

theorem nodup_addName {scope : Scope} (h : scope.Nodup) (name : String) :
    (addName name scope).Nodup := by
  rw [addName]
  split
  · exact h
  · rename_i hname
    exact h.append (List.nodup_singleton name) (List.disjoint_singleton.mpr hname)

theorem nodup_addNames {scope : Scope} (h : scope.Nodup) (names : List String) :
    (addNames scope names).Nodup := by
  induction names generalizing scope with
  | nil => exact h
  | cons name names ih => exact ih (nodup_addName h name)

end Lowering

/-- `vars` declares the names in the order of their first occurrences, each of them once. -/
structure Declaration (names vars : List String) : Prop where
  order : vars = names.eraseDups
  once : vars.Nodup

theorem declaration_eraseDups (names : List String) : Declaration names names.eraseDups :=
  ⟨rfl, Lowering.addNames_nil names ▸ Lowering.nodup_addNames List.nodup_nil names⟩

/-- The behavior of a block declares the names that the statements of the block bind, and that of a
local equation the identifiers of the equation. No other behavior declares names. -/
inductive DeclaresOwn : Expr → Behavior.Expr → Prop where
  | block {stmts vars stmt} : Declaration (stmts.flatMap Stmt.names) vars →
      DeclaresOwn (.block stmts) (.block vars stmt)
  | letIn {eqtn body vars eqtn' body'} : Declaration (Eqtn.names eqtn) vars →
      DeclaresOwn (.letIn eqtn body) (.letIn vars eqtn' body')
  | other {e b} : (∀ vars stmt, b ≠ .block vars stmt) →
      (∀ vars eqtn body, b ≠ .letIn vars eqtn body) → DeclaresOwn e b

theorem declaresOwn_behavior (e : Expr) : DeclaresOwn e e.behavior := by
  cases e with
  | block stmts => exact .block (declaration_eraseDups _)
  | letIn eqtn body => exact .letIn (declaration_eraseDups _)
  | _ => exact .other (fun _ _ => Behavior.Expr.noConfusion) fun _ _ _ => Behavior.Expr.noConfusion

/-- **Scopes declare their own names.** Let a program have a behavior tree. The expressions in the
tree are those of the program, lowered. Each block there, the program included, declares the names
that its own statements bind, in the order of their first occurrences and each of them once; each
local equation declares its own identifiers in the same way. Lowering any expression with any scopes
open comes to the same and leaves all of these scopes unchanged, whether it fails or not. -/
theorem scopes_declare_own_names {program : List Stmt} {b : Behavior.Expr}
    (h : lowerProgram program = .ok b) :
    List.Forall₂ (fun e x => lowerExpr e = .ok x ∧ DeclaresOwn e x)
        (Expr.block program).within b.within ∧
      ∀ e scopes, runIn scopes (Lowering.lowerExpr e) = (lowerExpr e, scopes) := by
  constructor
  · refine (lowered_within h).imp fun e x hx => ⟨hx, ?_⟩
    obtain ⟨-, rfl⟩ := lowerExpr_eq_ok_iff.mp hx
    exact declaresOwn_behavior e
  · intro e scopes
    rw [lowerExpr, run_lowerExpr, run_lowerExpr]

/-- A program that binds `a` and `b`, and, further inside, also `p`, `q` and `c`:
`CREATE a WITH \p.[LET q = _]`, `LET (b, a) = $(LET c = b IN c)`. -/
def nestedScopes : List Stmt :=
  [.create "a" (.abs (.ident "p") (.block [.bind (.mk (.ident "q") .any)])),
    .bind (.mk (.pair (.ident "b") (.ident "a"))
      (.value (.letIn (.mk (.ident "c") (.ident "b")) (.ident "c"))))]

theorem scopes_declare_own_names_nested :
    ∃ stmt, lowerProgram nestedScopes = .ok (.block ["a", "b"] stmt) ∧
      List.Forall₂ (fun e x => lowerExpr e = .ok x ∧ DeclaresOwn e x)
        (Expr.block nestedScopes).within (Behavior.Expr.block ["a", "b"] stmt).within :=
  have h : lowerProgram nestedScopes = .ok (Expr.block nestedScopes).behavior :=
    lowerExpr_eq_ok_iff.mpr ⟨List.forall_mem_nil _, rfl⟩
  ⟨_, h, (scopes_declare_own_names h).1⟩

end Humus

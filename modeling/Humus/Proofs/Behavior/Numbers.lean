import Humus.Proofs.Behavior.Lowering

/-!
# The numbers of a behavior tree

Lowering keeps every number literal of a program: the literals in its behavior tree are those of the
program, in another order. It fails if and only if one of them has no value, and its error names
such a literal. So a literal without a value is met wherever it stands, and never comes into a
behavior tree.

## Main definitions

* `Behavior.Expr.numbers`: the number literals of a behavior tree, from the left

## Main results

* `numbers_behavior`: the literals of the behavior of an expression are those of the expression
* `lowering_fails_on_invalid_numbers`: lowering fails exactly on numbers without a value
-/

namespace Humus

namespace Behavior

open Humus.Tree (Literal)

mutual

/-- The number literals of an expression, from the left. -/
def Expr.numbers : Expr → List Number
  | .block _ stmt => stmt.numbers
  | .pair head tail => head.numbers ++ tail.numbers
  | .letIn _ eqtn expr => eqtn.numbers ++ expr.numbers
  | .cond eqtn expr next => eqtn.numbers ++ (expr.numbers ++ next.numbers)
  | .case expr next => expr.numbers ++ next.numbers
  | .new expr => expr.numbers
  | .app abs arg => abs.numbers ++ arg.numbers
  | .abs ptrn body => ptrn.numbers ++ body.numbers
  | .literal value => value.numbers
  | .ident _ | .self | .const _ => []

/-- The number literals of a statement. -/
def Stmt.numbers : Stmt → List Number
  | .pair head tail => head.numbers ++ tail.numbers
  | .empty => []
  | .expr expr | .create _ expr | .become expr | .throw expr => expr.numbers
  | .bind eqtn => eqtn.numbers
  | .send msg recipient => msg.numbers ++ recipient.numbers
  | .afterSend delay msg recipient => delay.numbers ++ (msg.numbers ++ recipient.numbers)

/-- The number literals of the arms of a case distinction. -/
def Cases.numbers : Cases → List Number
  | .choice ptrn expr next => ptrn.numbers ++ (expr.numbers ++ next.numbers)
  | .finish => []

/-- The number literals of a pattern. -/
def Ptrn.numbers : Ptrn → List Number
  | .pair head tail => head.numbers ++ tail.numbers
  | .value expr => expr.numbers
  | .literal value => value.numbers
  | .any | .ident _ | .self | .const _ => []

/-- The number literals of an equation. -/
def Eqtn.numbers : Eqtn → List Number
  | .mk left right => left.numbers ++ right.numbers

end

end Behavior

namespace Tree

/-! ## The numbers of a behavior -/

mutual

theorem numbers_behavior : (e : Expr) → e.behavior.numbers.Perm e.numbers
  | .pair head tail => (numbers_behavior head).append (numbers_behavior tail)
  | .letIn eqtn body => (numbers_behaviorEqtn eqtn).append (numbers_behavior body)
  | .cond eqtn body next => by
    rw [Expr.behavior, Behavior.Expr.numbers, Expr.numbers, ← List.append_assoc]
    -- lowering meets the second branch first
    refine List.perm_append_comm.trans ?_
    apply (numbers_behaviorOption next).append
    exact (numbers_behaviorEqtn eqtn).append (numbers_behavior body)
  | .case subject arms => (numbers_behavior subject).append (numbers_behaviorArms arms)
  | .new expr => numbers_behavior expr
  | .app abs arg => (numbers_behavior abs).append (numbers_behavior arg)
  | .block stmts => numbers_behaviorStmts stmts
  | .abs ptrn body => (numbers_behaviorPtrn ptrn).append (numbers_behavior body)
  | .literal _ | .ident _ | .self | .const _ => .refl _

theorem numbers_behaviorOption : (next : Option Expr) →
    (behaviorOption next).numbers.Perm (numbersOption next)
  | none => .refl _
  | some next => numbers_behavior next

theorem numbers_behaviorStmts : (stmts : List Stmt) →
    (Behavior.Stmt.chain (behaviorStmts stmts)).numbers.Perm (numbersStmts stmts)
  | [] => .refl _
  | s :: ss => (numbers_behaviorStmt s).append (numbers_behaviorStmts ss)

theorem numbers_behaviorStmt : (s : Stmt) → s.behavior.numbers.Perm s.numbers
  | .expr expr | .create _ expr | .become expr | .throw expr => numbers_behavior expr
  | .bind eqtn => numbers_behaviorEqtn eqtn
  | .send msg recipient => (numbers_behavior msg).append (numbers_behavior recipient)
  | .afterSend delay msg recipient =>
    (numbers_behavior delay).append ((numbers_behavior msg).append (numbers_behavior recipient))

theorem numbers_behaviorArms : (arms : List Arm) →
    (behaviorArms arms).numbers.Perm (numbersArms arms)
  | [] => .refl _
  | .mk ptrn expr :: arms => by
    rw [behaviorArms, Behavior.Cases.numbers, numbersArms, ← List.append_assoc]
    -- lowering meets the last arm first
    refine List.perm_append_comm.trans ?_
    apply (numbers_behaviorArms arms).append
    exact (numbers_behaviorPtrn ptrn).append (numbers_behavior expr)

theorem numbers_behaviorPtrn : (p : Ptrn) → p.behavior.numbers.Perm p.numbers
  | .pair head tail => (numbers_behaviorPtrn head).append (numbers_behaviorPtrn tail)
  | .value expr => numbers_behavior expr
  | .literal _ | .any | .ident _ | .self | .const _ => .refl _

theorem numbers_behaviorEqtn : (e : Eqtn) → e.behavior.numbers.Perm e.numbers
  | .mk left right => (numbers_behaviorPtrn left).append (numbers_behaviorPtrn right)

end

end Tree

open Lowering (checked_eq_error_iff checked_eq_ok_iff)
open Humus.Tree (Expr Stmt numbersStmts)

variable {program : List Stmt}

/-- An error of lowering names a literal of the program that has no value. -/
theorem exists_of_lowerProgram_eq_error {e : LowerError} (h : lowerProgram program = .error e) :
    ∃ n ∈ numbersStmts program, n.value? = none ∧ .invalidNumber n = e := by
  rw [lowerProgram_eq_checked, checked_eq_error_iff] at h
  obtain ⟨n, hfind, he⟩ := h
  have hnone := List.find?_some hfind
  rw [Option.isNone_iff_eq_none] at hnone
  exact ⟨n, List.mem_of_find?_eq_some hfind, hnone, he⟩

/-- The literals of a behavior tree are those of the program. -/
theorem perm_numbers_of_lowerProgram_eq_ok {b : Behavior.Expr} (h : lowerProgram program = .ok b) :
    b.numbers.Perm (numbersStmts program) := by
  rw [lowerProgram_eq_checked, checked_eq_ok_iff] at h
  obtain ⟨-, rfl⟩ := h
  exact Tree.numbers_behavior (.block program)

/-- **Lowering fails exactly on numbers without a value.** A program has no behavior tree if and only
if a number literal without a value occurs in it, as an expression or as a pattern, at any depth. The
error then names one of these literals as it is written. If none occurs there is a behavior tree, and
every number literal in it has a value. -/
theorem lowering_fails_on_invalid_numbers (program : List Stmt) :
    ((∃ n, lowerProgram program = .error (.invalidNumber n)) ↔
      ∃ n ∈ numbersStmts program, n.value? = none) ∧
    (∀ e, lowerProgram program = .error e →
      ∃ n ∈ numbersStmts program, n.value? = none ∧ e.literal = n.text) ∧
    ((¬ ∃ n ∈ numbersStmts program, n.value? = none) →
      ∃ b, lowerProgram program = .ok b ∧ ∀ n ∈ b.numbers, n.value?.isSome) := by
  refine ⟨⟨?_, ?_⟩, ?_, ?_⟩
  · rintro ⟨n, h⟩
    obtain ⟨m, hm, hnone, -⟩ := exists_of_lowerProgram_eq_error h
    exact ⟨m, hm, hnone⟩
  · rintro ⟨n, hn, hnone⟩
    cases h : lowerProgram program with
    | error e =>
      obtain ⟨m, -, -, rfl⟩ := exists_of_lowerProgram_eq_error h
      exact ⟨m, rfl⟩
    | ok b =>
      -- a behavior tree would give the literal a value
      rw [lowerProgram_eq_checked, checked_eq_ok_iff] at h
      simpa [hnone] using h.1 n hn
  · intro e h
    obtain ⟨n, hn, hnone, rfl⟩ := exists_of_lowerProgram_eq_error h
    exact ⟨n, hn, hnone, rfl⟩
  · intro hvalues
    cases h : lowerProgram program with
    | error e =>
      obtain ⟨n, hn, hnone, -⟩ := exists_of_lowerProgram_eq_error h
      exact absurd ⟨n, hn, hnone⟩ hvalues
    | ok b =>
      refine ⟨b, rfl, fun n hn => ?_⟩
      rw [Option.isSome_iff_ne_none]
      intro hnone
      exact hvalues ⟨n, (perm_numbers_of_lowerProgram_eq_ok h).mem_iff.mp hn, hnone⟩

/-- The program `CASE 1 OF $2#19 : 3 END` with other digits for `19`. -/
def matchedNumber (digits : String) : List Stmt :=
  [.expr (.case (.literal (.number ⟨none, 10, "1"⟩))
    [.mk (.value (.literal (.number ⟨none, 2, digits⟩))) (.literal (.number ⟨none, 10, "3"⟩))])]

/-- The digit 9 is none of the radix two, also where the number is within a pattern. -/
theorem lowering_fails_on_invalid_numbers_matched :
    (∃ e, lowerProgram (matchedNumber "19") = .error e ∧ e.literal = "2#19") ∧
      ∃ b, lowerProgram (matchedNumber "11") = .ok b ∧ ∀ n ∈ b.numbers, n.value?.isSome := by
  have hinvalid : ∃ n ∈ numbersStmts (matchedNumber "19"), n.value? = none := by decide +kernel
  have htexts : ∀ n ∈ numbersStmts (matchedNumber "19"), n.value? = none → n.text = "2#19" := by
    decide +kernel
  have hvalid : ¬ ∃ n ∈ numbersStmts (matchedNumber "11"), n.value? = none := by decide +kernel
  constructor
  · obtain ⟨n, h⟩ := (lowering_fails_on_invalid_numbers _).1.mpr hinvalid
    obtain ⟨m, hm, hnone, htext⟩ := (lowering_fails_on_invalid_numbers _).2.1 _ h
    exact ⟨_, h, htext.trans (htexts m hm hnone)⟩
  · exact (lowering_fails_on_invalid_numbers _).2.2 hvalid

end Humus

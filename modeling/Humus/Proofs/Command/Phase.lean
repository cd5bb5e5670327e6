import Humus.Command.Phase
import Humus.Proofs.Behavior.Document
import Humus.Proofs.Text.Json
import Humus.Proofs.Tree.Document

/-!
# The texts that phases print

A phase that shows its result as JSON prints one document, and the printer and the documents of
syntax trees and of behavior trees are injective. Nothing of the result is thereby lost in the
text.

## Main results

* `Phase.showTree_json_inj`, `Phase.showBehavior_json_inj`: a printed tree determines the tree
* `Phase.run_tree_of_ok`, `Phase.run_behavior_of_ok`: what the phases print of a program that
  parses, and of one that lowers
* `json_determines_result`: phases print the same text of two sources only if they found the same
  in them
-/

namespace Humus

open Humus.Tree (Stmt)

namespace Phase

theorem showTree_json_inj {p q : List Stmt} : showTree .json p = showTree .json q ↔ p = q := by
  simp [showTree, render, Text.Json.pretty_inj, Tree.jsonStmts_inj]

theorem showBehavior_json_inj {b c : Behavior.Expr} :
    showBehavior .json b = showBehavior .json c ↔ b = c := by
  simp [showBehavior, render, Text.Json.pretty_inj, Behavior.Expr.json_inj]

variable {fuel : Nat} {o : Options} {source : String} {p : List Stmt} {b : Behavior.Expr}

theorem run_tree_of_ok (h : parseProgram fuel o.limit source = some (.ok p)) :
    run fuel .tree o source = some (.ok (showTree o.form p)) := by
  simp [run, h, Except.mapError, Except.map]

theorem run_behavior_of_ok (h : parseProgram fuel o.limit source = some (.ok p))
    (hb : lowerProgram p = .ok b) :
    run fuel .behavior o source = some (.ok (showBehavior o.form b)) := by
  simp [run, h, hb, Except.mapError, bind, Except.bind, pure, Except.pure]

end Phase

/-- The JSON that a phase prints determines what was parsed. Of two sources that parse, the tree
phase prints texts, and they are the same exactly if the statements are; and where both programs
lower, the behavior phase prints texts that are the same exactly if the behavior trees are. -/
theorem json_determines_result (fuel fuel' : Nat) (o o' : Options) (source source' : String)
    (p q : List Stmt) (ho : o.form = .json) (ho' : o'.form = .json)
    (hp : parseProgram fuel o.limit source = some (.ok p))
    (hq : parseProgram fuel' o'.limit source' = some (.ok q)) :
    (∃ text text', Phase.run fuel .tree o source = some (.ok text)
      ∧ Phase.run fuel' .tree o' source' = some (.ok text') ∧ (text = text' ↔ p = q))
    ∧ ∀ b c, lowerProgram p = .ok b → lowerProgram q = .ok c →
      ∃ text text', Phase.run fuel .behavior o source = some (.ok text)
        ∧ Phase.run fuel' .behavior o' source' = some (.ok text') ∧ (text = text' ↔ b = c) := by
  constructor
  · refine ⟨_, _, Phase.run_tree_of_ok hp, Phase.run_tree_of_ok hq, ?_⟩
    rw [ho, ho', Phase.showTree_json_inj]
  · intro b c hb hc
    refine ⟨_, _, Phase.run_behavior_of_ok hp hb, Phase.run_behavior_of_ok hq hc, ?_⟩
    rw [ho, ho', Phase.showBehavior_json_inj]

/-- A result is known from what of it can be compared. -/
theorem eq_some_ok_of_toOption {ε α : Type} {x : Option (Except ε α)} {a : α}
    (h : x.map Except.toOption = some (some a)) : x = some (.ok a) := by
  obtain ⟨r, rfl, hr⟩ := Option.map_eq_some_iff.mp h
  cases r with
  | error e => cases hr
  | ok a' => cases hr; rfl

/-- The constant `?` and the string `"?"` are printed with the same value, and still differently. -/
theorem json_determines_result_undefined :
    (∃ text text', Phase.run 1000 .tree {} "?" = some (.ok text)
      ∧ Phase.run 1000 .tree {} "\"?\"" = some (.ok text') ∧ text ≠ text')
    ∧ ∃ text text', Phase.run 1000 .behavior {} "?" = some (.ok text)
      ∧ Phase.run 1000 .behavior {} "\"?\"" = some (.ok text') ∧ text ≠ text' := by
  have hp : parseProgram 1000 none "?" = some (.ok [.expr (.const .undefined)]) :=
    eq_some_ok_of_toOption (by decide +kernel)
  have hq : parseProgram 1000 none "\"?\"" = some (.ok [.expr (.literal (.string "?"))]) :=
    eq_some_ok_of_toOption (by decide +kernel)
  obtain ⟨⟨text, text', h, h', hiff⟩, hlowered⟩ :=
    json_determines_result 1000 1000 {} {} "?" "\"?\"" _ _ rfl rfl hp hq
  obtain ⟨ir, ir', hir, hir', hiffIr⟩ := hlowered _ _ rfl rfl
  exact ⟨⟨text, text', h, h', fun he => by simpa using hiff.mp he⟩,
    ⟨ir, ir', hir, hir', fun he => by simpa [Behavior.Stmt.chain] using hiffIr.mp he⟩⟩

end Humus

import Humus.Tree.Node
import Humus.Peg.Grammar

/-!
# Reductions

A reduction turns the raw node of a rule into what the rule stands for. It is written for the
shapes that its rule produces and refuses any other.

## Main definitions

* `Reduction`: what becomes of the nodes of a rule
* `malformed`: the refusal of a node that a rule cannot have produced
* `reducedGrammar`: rules with their reductions
-/

namespace Humus

/-- What a reduction makes of a node, given the name of its rule. -/
abbrev Reduction := String → Node → Except String Node

/-- Refuse a node of the wrong shape. -/
def malformed {α : Type} (rule : String) (n : Node) : Except String α :=
  .error ("unexpected shape for " ++ rule ++ ": " ++ n.outline.compact)

/-- A sealed grammar with these rules and reductions. -/
def reducedGrammar (rules : List (String × Peg.Pattern Node))
    (reductions : List (String × Reduction)) : Peg.Grammar Node where
  rules := rules.map fun (name, body) =>
    (name, { body := some body
             transform := (reductions.lookup name).map fun reduce rule n _ => reduce rule n })
  isSealed := true

end Humus

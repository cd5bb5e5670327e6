import Humus.Peg.Pattern
import Humus.Peg.Fault

/-!
# Grammars

A grammar maps names to rules. While it is open, rules are mentioned, given bodies and given
transforms, in any order. The first request to match one of its rules seals it, and from then on
no rule changes.

## Main definitions

* `Transform V`: what becomes of the raw value of a rule
* `Rule V`: the body and the transform of a rule, as far as they are known
* `Grammar V`: the rules by name, and whether the grammar is sealed
* `Grammar.mention`, `Grammar.define`, `Grammar.transform`, `Grammar.close`: what changes a grammar
-/

namespace Humus.Peg

open Text (Outline)

/-- What becomes of the raw value of a rule. It is given the name of the rule, the value and the
region that was consumed, and may refuse the value with a reason. -/
abbrev Transform (V : Type) :=
  String → V → Span → Except String V

/-- What is known of a rule. -/
structure Rule (V : Type) where
  body : Option (Pattern V) := none
  transform : Option (Transform V) := none

/-- The rules by name. -/
structure Grammar (V : Type) where
  /-- The rules in the order in which they were first mentioned, each name once. -/
  rules : List (String × Rule V) := []
  /-- Whether matching has begun. -/
  isSealed : Bool := false

namespace Grammar

variable {V : Type}

/-- The grammar without rules. -/
def empty : Grammar V := {}

/-- The rule of this name, if it was ever mentioned. -/
def rule? (g : Grammar V) (name : String) : Option (Rule V) :=
  g.rules.lookup name

/-- Change the rule of this name, which is made on its first mention. -/
def updateRule (name : String) (f : Rule V → Rule V) :
    List (String × Rule V) → List (String × Rule V)
  | [] => [(name, f {})]
  | (n, r) :: rules => if n = name then (n, f r) :: rules else (n, r) :: updateRule name f rules

/-- Take note of a name. -/
def mention (g : Grammar V) (name : String) : Grammar V :=
  { g with rules := updateRule name id g.rules }

/-- Give the rule `name` its body. -/
def define (g : Grammar V) (name : String) (body : Pattern V) : Except Fault (Grammar V) :=
  if g.isSealed then .error (.sealed name .define)
  else if ((g.rule? name).bind Rule.body).isSome then .error (.redefined name)
  else .ok { g with rules := updateRule name ({ · with body := some body }) g.rules }

/-- Give the rule `name` a transform in place of any earlier one. -/
def transform (g : Grammar V) (name : String) (f : Transform V) : Except Fault (Grammar V) :=
  if g.isSealed then .error (.sealed name .transform)
  else .ok { g with rules := updateRule name ({ · with transform := some f }) g.rules }

/-- Whether the rule of this name has a body. -/
def contains (g : Grammar V) (name : String) : Bool :=
  ((g.rule? name).bind Rule.body).isSome

/-- The names of the rules that pass a test, in increasing order. -/
def namesWhere (g : Grammar V) (test : Rule V → Bool) : List String :=
  ((g.rules.filter fun (_, r) => test r).map Prod.fst).mergeSort fun a b => decide (a ≤ b)

/-- The names of the rules with a body, in increasing order. -/
def names (g : Grammar V) : List String :=
  g.namesWhere (·.body.isSome)

/-- End the definition of the grammar. The rules that were mentioned and have no body are
reported; the grammar is sealed nevertheless. -/
def close (g : Grammar V) : Except Fault Unit × Grammar V :=
  let missing := g.namesWhere (·.body.isNone)
  (if missing.isEmpty then .ok () else .error (.unresolved missing), { g with isSealed := true })

/-- The grammar in a trace. -/
def outline (g : Grammar V) : Outline :=
  .record "Namespace" [("rules", .nat g.rules.length), ("sealed", .bool g.isSealed)]

end Grammar

end Humus.Peg

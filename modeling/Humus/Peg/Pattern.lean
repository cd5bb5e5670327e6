import Humus.Peg.Cursor

/-!
# Patterns

A pattern says what an input may look like at a cursor. A rule of a grammar is referred to by its
name, so that it may be used before it is defined, and in its own definition.

## Main definitions

* `RuleRef`: a rule of one of several grammars
* `Pattern V`: the patterns over tokens of type `V`
* `Pattern.matching`: a test to which no label was given
-/

namespace Humus.Peg

open Text (Outline)

/-- A rule, by the number of its grammar and its name. -/
structure RuleRef where
  grammar : Nat
  name : String
  deriving DecidableEq

/-- What an input may look like at a cursor. -/
inductive Pattern (V : Type) where
  /-- One token that equals `value`. -/
  | terminal (value : V)
  /-- One token that passes the test. A failure names the class by its label. -/
  | predicate (label : String) (test : V → Bool)
  /-- One token. -/
  | any
  /-- The end of the input. -/
  | finish
  /-- All items, one after the other. -/
  | sequence (items : List (Pattern V))
  /-- The first item that matches. -/
  | choice (items : List (Pattern V))
  /-- The body as often as it matches. -/
  | zeroOrMore (body : Pattern V)
  /-- The body as often as it matches, at least once. -/
  | oneOrMore (body : Pattern V)
  /-- The body, if it matches. -/
  | optional (body : Pattern V)
  /-- Nothing, if the body does not match. -/
  | not (body : Pattern V)
  /-- Whatever the rule matches. -/
  | rule (ref : RuleRef)
  /-- The body, by way of an actor that counts the requests under a name. -/
  | tally (counter : String) (body : Pattern V)
  /-- An actor that never answers. -/
  | silent

namespace Pattern

variable {V : Type}

/-- One token that passes the test, where nobody has named the class of such tokens. -/
def matching (test : V → Bool) : Pattern V :=
  .predicate "matching token" test

mutual

/-- Whether matching the pattern involves an actor outside the grammar. Rules are not entered. -/
def isForeign : Pattern V → Bool
  | .tally .. | .silent => true
  | .sequence items | .choice items => anyForeign items
  | .zeroOrMore body | .oneOrMore body | .optional body | .not body => isForeign body
  | .terminal _ | .predicate .. | .any | .finish | .rule _ => false

/-- Whether one of several patterns involves an actor outside the grammar. -/
def anyForeign : List (Pattern V) → Bool
  | [] => false
  | p :: ps => isForeign p || anyForeign ps

end

variable [MatchValue V]

mutual

/-- The pattern in a trace. -/
def outline : Pattern V → Outline
  | .terminal value => .applied "Terminal" [MatchValue.outline value]
  | .predicate label _ => .applied "Predicate" [.string label]
  | .any => .word "Any"
  | .finish => .word "End"
  | .sequence items => .applied "Sequence" [.items (outlines items)]
  | .choice items => .applied "Choice" [.items (outlines items)]
  | .zeroOrMore body => .applied "ZeroOrMore" [outline body]
  | .oneOrMore body => .applied "OneOrMore" [outline body]
  | .optional body => .applied "Optional" [outline body]
  | .not body => .applied "Not" [outline body]
  | .rule ref => .applied "Rule" [.string ref.name]
  | .tally counter body => .applied "Tally" [.string counter, outline body]
  | .silent => .word "Silent"

/-- Several patterns in a trace. -/
def outlines : List (Pattern V) → List Outline
  | [] => []
  | p :: ps => outline p :: outlines ps

end

end Pattern

end Humus.Peg

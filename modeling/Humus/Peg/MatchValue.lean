import Humus.Text.Outline

/-!
# Values of matches

A grammar consumes tokens and produces values, and both have one type, so that the values of one
grammar can be the tokens of the next.

## Main definitions

* `MatchValue V`: what the engine needs to know about a type of values
* `Value`: the values of a grammar over characters
* `Value.flatten`: the characters of a value, from left to right
-/

namespace Humus.Peg

open Text (Outline quotedChar quotedString)

/-- A type of values that a grammar can produce and consume. -/
class MatchValue (V : Type) extends Inhabited V where
  /-- The value of a sequence, a repetition or an option. -/
  list : List V → V
  /-- The value of a match that consumes nothing. -/
  nothing : V
  /-- The token for a character. -/
  ofChar : Char → V
  /-- A few words for a message. -/
  describe : V → String
  /-- The value in a trace. -/
  outline : V → Outline

/-- The values of a grammar over characters. -/
inductive Value where
  | nothing
  | char (c : Char)
  | text (s : String)
  | list (items : List Value)

namespace Value

/-! ## Equality -/

mutual

/-- Equality of values is decided along their structure. -/
def decEq (a b : Value) : Decidable (a = b) := by
  cases a <;> cases b
  case nothing.nothing => exact isTrue rfl
  case char.char c d => exact decidable_of_iff (c = d) (by simp)
  case text.text s t => exact decidable_of_iff (s = t) (by simp)
  case list.list as bs =>
    haveI := decEqList as bs
    exact decidable_of_iff (as = bs) (by simp)
  all_goals exact isFalse (by simp)

/-- Lists are compared item by item. -/
def decEqList : (as bs : List Value) → Decidable (as = bs)
  | [], [] => isTrue rfl
  | [], _ :: _ | _ :: _, [] => isFalse (by simp)
  | a :: as, b :: bs =>
    haveI := decEq a b
    haveI := decEqList as bs
    decidable_of_iff (a = b ∧ as = bs) (by simp)

end

instance : DecidableEq Value := decEq

/-! ## Text -/

mutual

/-- The number of nodes. -/
def weight : Value → Nat
  | .list items => 1 + weights items
  | _ => 1

/-- The number of nodes of several values. -/
def weights : List Value → Nat
  | [] => 0
  | v :: vs => weight v + weights vs

end

theorem weights_append (vs ws : List Value) : weights (vs ++ ws) = weights vs + weights ws := by
  induction vs with
  | nil => simp [weights]
  | cons v vs ih => simp [weights, ih, Nat.add_assoc]

/-- The characters of the values on a stack, behind those written so far. A list is replaced on
the stack by its items. -/
def flattenOnto (out : String) : List Value → String
  | [] => out
  | .nothing :: stack => flattenOnto out stack
  | .char c :: stack => flattenOnto (out.push c) stack
  | .text s :: stack => flattenOnto (out ++ s) stack
  | .list items :: stack => flattenOnto out (items ++ stack)
termination_by stack => weights stack
decreasing_by all_goals simp [weights, weight, weights_append]

/-- Every character and text of the value, from left to right. -/
def flatten (v : Value) : String :=
  flattenOnto "" [v]

/-- The character of a character value. -/
def char? : Value → Option Char
  | .char c => some c
  | _ => none

/-- The items of a list value. -/
def items? : Value → Option (List Value)
  | .list items => some items
  | _ => none

/-- A few words for a message. -/
def describe : Value → String
  | .nothing => "nothing"
  | .char c => quotedChar c
  | .text s => quotedString s
  | .list items => "list of " ++ toString items.length

mutual

/-- The value in a trace. -/
def outline : Value → Outline
  | .nothing => .word "Nothing"
  | .char c => .applied "Char" [.char c]
  | .text s => .applied "Text" [.string s]
  | .list items => .applied "List" [.items (outlines items)]

/-- The items of a list in a trace. -/
def outlines : List Value → List Outline
  | [] => []
  | v :: vs => outline v :: outlines vs

end

instance : MatchValue Value where
  default := .nothing
  list := .list
  nothing := .nothing
  ofChar := .char
  describe := describe
  outline := outline

end Value

end Humus.Peg

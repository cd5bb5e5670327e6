import Humus.Tree.Outline
import Humus.Peg.MatchValue

/-!
# Nodes

Both grammars of Humus produce nodes. The token grammar begins with characters and produces
tokens; the syntax grammar begins with tokens and produces the parts of a syntax tree. What is not
yet reduced is a list.

## Main definitions

* `Node`: the values of both grammars
* `Node.flatten`: the characters and texts of a node, from left to right
-/

namespace Humus

open Text (Outline quotedChar quotedString)
open Humus.Tree (Expr Stmt Ptrn Eqtn)

/-- A value of the token grammar or of the syntax grammar. -/
inductive Node where
  | nothing
  | char (c : Char)
  | text (s : String)
  | list (items : List Node)
  | token (t : Token)
  | stmt (s : Stmt)
  | expr (e : Expr)
  | ptrn (p : Ptrn)
  | eqtn (e : Eqtn)

namespace Node

/-! ## Equality -/

mutual

/-- Equality of nodes is decided along their structure. -/
def decEq (a b : Node) : Decidable (a = b) := by
  cases a <;> cases b
  case nothing.nothing => exact isTrue rfl
  case char.char c d => exact decidable_of_iff (c = d) (by simp)
  case text.text s t => exact decidable_of_iff (s = t) (by simp)
  case list.list as bs =>
    haveI := decEqList as bs
    exact decidable_of_iff (as = bs) (by simp)
  case token.token s t => exact decidable_of_iff (s = t) (by simp)
  case stmt.stmt s t => exact decidable_of_iff (s = t) (by simp)
  case expr.expr s t => exact decidable_of_iff (s = t) (by simp)
  case ptrn.ptrn s t => exact decidable_of_iff (s = t) (by simp)
  case eqtn.eqtn s t => exact decidable_of_iff (s = t) (by simp)
  all_goals exact isFalse (by simp)

/-- Lists are compared item by item. -/
def decEqList : (as bs : List Node) → Decidable (as = bs)
  | [], [] => isTrue rfl
  | [], _ :: _ | _ :: _, [] => isFalse (by simp)
  | a :: as, b :: bs =>
    haveI := decEq a b
    haveI := decEqList as bs
    decidable_of_iff (a = b ∧ as = bs) (by simp)

end

instance : DecidableEq Node := decEq

/-! ## Text -/

mutual

/-- The number of nodes, each part of a syntax tree counted as one. -/
def weight : Node → Nat
  | .list items => 1 + weights items
  | _ => 1

/-- The number of nodes of several nodes. -/
def weights : List Node → Nat
  | [] => 0
  | n :: ns => weight n + weights ns

end

theorem one_le_weight (n : Node) : 1 ≤ n.weight := by
  cases n <;> simp [weight]

theorem weights_append (ns ms : List Node) : weights (ns ++ ms) = weights ns + weights ms := by
  induction ns with
  | nil => simp [weights]
  | cons n ns ih => simp [weights, ih, Nat.add_assoc]

/-- The characters and texts of the nodes on a stack, behind those written so far. A list is
replaced on the stack by its items. -/
def flattenOnto (out : String) : List Node → String
  | [] => out
  | .char c :: stack => flattenOnto (out.push c) stack
  | .text s :: stack => flattenOnto (out ++ s) stack
  | .list items :: stack => flattenOnto out (items ++ stack)
  | n :: stack =>
    have := n.one_le_weight
    flattenOnto out stack
termination_by stack => weights stack
decreasing_by all_goals simp [weights, weight, weights_append]; try omega

/-- The characters and texts of a node, from left to right. -/
def flatten (n : Node) : String :=
  flattenOnto "" [n]

/-! ## Parts -/

/-- The character of a character node. -/
def char? : Node → Option Char
  | .char c => some c
  | _ => none

/-- The items of a list. -/
def items? : Node → Option (List Node)
  | .list items => some items
  | _ => none

/-- The token of a token node. -/
def token? : Node → Option Token
  | .token t => some t
  | _ => none

/-- The reserved word that the node is. -/
def keyword? (n : Node) : Option Keyword :=
  n.token?.bind Token.keyword?

/-- Whether the node is this punctuation. -/
def isPunct (c : Char) (n : Node) : Bool :=
  n = .token (.punct c)

/-! ## Traces -/

/-- A few words for a message. -/
def describe : Node → String
  | .nothing => "nothing"
  | .char c => quotedChar c
  | .text s => quotedString s
  | .list items => "list of " ++ toString items.length
  | .token t => t.text
  | .stmt _ => "statement"
  | .expr _ => "expression"
  | .ptrn _ => "pattern"
  | .eqtn _ => "equation"

mutual

/-- The node in a trace. -/
def outline : Node → Outline
  | .nothing => .word "Nothing"
  | .char c => .applied "Char" [.char c]
  | .text s => .applied "Text" [.string s]
  | .list items => .applied "List" [.items (outlines items)]
  | .token t => .applied "Token" [t.outline]
  | .stmt s => .applied "Stmt" [s.outline]
  | .expr e => .applied "Expr" [e.outline]
  | .ptrn p => .applied "Ptrn" [p.outline]
  | .eqtn e => .applied "Eqtn" [e.outline]

/-- The items of a list in a trace. -/
def outlines : List Node → List Outline
  | [] => []
  | n :: ns => outline n :: outlines ns

end

instance : Peg.MatchValue Node where
  default := .nothing
  list := .list
  nothing := .nothing
  ofChar := .char
  describe := describe
  outline := outline

end Node

end Humus

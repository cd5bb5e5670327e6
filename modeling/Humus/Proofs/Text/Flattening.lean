import Humus.Tree.Node
import Mathlib.Logic.Function.Iterate
import Mathlib.Logic.Relation

/-!
# Texts of values

To flatten a value is to empty a stack. A character or a text on top of it is written, a list is
replaced by its items, and what is neither is dropped. In the end the text is written that the value
has by recursion on its lists. The stack is empty after one turn for each node of the value.

## Main definitions

* `Piece V`, `turn piece`: what a value is on top of a stack, and one turn of the loop
* `Empties piece weights onto`: `onto` empties a stack turn by turn
* `Peg.Value.textOf`, `Node.textOf`: the text of a value, by recursion on it
* `Regroups vs ws`: `ws` are the values `vs`, some of them in a list of their own

## Main results

* `Empties.iterate_turn`: a stack is empty after as many turns as its weight
* `Empties.onto_eq`: the values of a stack are written one after the other
* `flatten_eq_textOf`: values are flattened to the text that they have by recursion
-/

namespace Humus

open Peg (MatchValue Value)

variable {V : Type}

/-! ## Stacks -/

/-- What a value is on top of a stack: a text that is written, or values that take its place. -/
inductive Piece (V : Type) where
  | text (s : String)
  | items (vs : List V)

/-- One turn of the loop over a stack, behind what is written so far. -/
def turn (piece : V → Piece V) : String × List V → String × List V
  | (out, []) => (out, [])
  | (out, v :: stack) =>
    match piece v with
    | .text s => (out ++ s, stack)
    | .items vs => (out, vs ++ stack)

/-- `onto` writes the values of a stack behind a text, turn by turn. Each turn takes one off the
weight of the stack. -/
structure Empties (piece : V → Piece V) (weights : List V → Nat)
    (onto : String → List V → String) : Prop where
  weights_nil : weights [] = 0
  weights_cons (out : String) (v : V) (stack : List V) :
    weights (v :: stack) = weights (turn piece (out, v :: stack)).2 + 1
  onto_nil (out : String) : onto out [] = out
  onto_cons (out : String) (v : V) (stack : List V) :
    onto out (v :: stack) =
      onto (turn piece (out, v :: stack)).1 (turn piece (out, v :: stack)).2

namespace Empties

variable {piece : V → Piece V} {weights : List V → Nat} {onto : String → List V → String}

/-- What holds of the empty stack, and of a stack if it holds of the one after a turn, holds of every
stack. -/
theorem induct (h : Empties piece weights onto) {P : String → List V → Prop}
    (nil : ∀ out, P out [])
    (cons : ∀ out v stack,
      P (turn piece (out, v :: stack)).1 (turn piece (out, v :: stack)).2 → P out (v :: stack))
    (out : String) (stack : List V) : P out stack := by
  induction hn : weights stack using Nat.strongRecOn generalizing out stack with
  | ind n ih =>
    cases stack with
    | nil => exact nil out
    | cons v stack =>
      have hlighter := h.weights_cons out v stack
      exact cons out v stack (ih _ (by omega) _ _ rfl)

/-- **The loop writes what `onto` does**, and it has emptied the stack after as many turns as the
stack weighs. -/
theorem iterate_turn (h : Empties piece weights onto) (out : String) (stack : List V) :
    (turn piece)^[weights stack] (out, stack) = (onto out stack, []) := by
  induction out, stack using h.induct with
  | nil out => rw [h.weights_nil, h.onto_nil, Function.iterate_zero_apply]
  | cons out v stack ih =>
    rw [h.weights_cons out, Function.iterate_succ_apply, h.onto_cons]
    exact ih

/-- The loop does not empty a stack in fewer turns. -/
theorem iterate_turn_eq_nil_iff (h : Empties piece weights onto) (k : Nat) (out : String)
    (stack : List V) : ((turn piece)^[k] (out, stack)).2 = [] ↔ weights stack ≤ k := by
  induction k generalizing out stack with
  | zero =>
    cases stack with
    | nil => simp [h.weights_nil]
    | cons v stack => simp [h.weights_cons out]
  | succ k ih =>
    rw [Function.iterate_succ_apply]
    cases stack with
    | nil =>
      -- nothing happens on an empty stack
      have hnil := ih out []
      simp only [h.weights_nil, Nat.zero_le, iff_true] at hnil ⊢
      exact hnil
    | cons v stack => rw [ih, h.weights_cons out, Nat.add_le_add_iff_right]

/-- What is written before stays in front. -/
theorem onto_append_left (h : Empties piece weights onto) (pre out : String) (stack : List V) :
    onto (pre ++ out) stack = pre ++ onto out stack := by
  have hturn : ∀ out v stack, turn piece (pre ++ out, v :: stack) =
      (pre ++ (turn piece (out, v :: stack)).1, (turn piece (out, v :: stack)).2) := by
    intro out v stack
    cases hv : piece v <;> simp [turn, hv, String.append_assoc]
  induction out, stack using h.induct with
  | nil out => rw [h.onto_nil, h.onto_nil]
  | cons out v stack ih => rw [h.onto_cons, hturn, ih, ← h.onto_cons]

/-- What is on top of a stack is written first. -/
theorem onto_append (h : Empties piece weights onto) (out : String) (stack rest : List V) :
    onto out (stack ++ rest) = onto (onto out stack) rest := by
  have hturn : ∀ out v stack, turn piece (out, v :: (stack ++ rest)) =
      ((turn piece (out, v :: stack)).1, (turn piece (out, v :: stack)).2 ++ rest) := by
    intro out v stack
    cases hv : piece v <;> simp [turn, hv]
  induction out, stack using h.induct with
  | nil out => rw [List.nil_append, h.onto_nil]
  | cons out v stack ih => rw [List.cons_append, h.onto_cons, hturn, ih, ← h.onto_cons]

/-- **The values of a stack are written one after the other.** -/
theorem onto_eq (h : Empties piece weights onto) (out : String) (vs : List V) :
    onto out vs = out ++ String.join (vs.map fun v => onto "" [v]) := by
  induction vs generalizing out with
  | nil => simp [h.onto_nil]
  | cons v vs ih =>
    have hfirst : onto out [v] = out ++ onto "" [v] := by
      have hpre := h.onto_append_left out "" [v]
      rwa [String.append_empty] at hpre
    rw [← List.singleton_append, h.onto_append, ih, hfirst, List.singleton_append, List.map_cons,
      String.join_cons, String.append_assoc]

/-- A text is written as it is. -/
theorem onto_of_text (h : Empties piece weights onto) {v : V} {s : String}
    (hv : piece v = .text s) : onto "" [v] = s := by
  simp [h.onto_cons, turn, hv, h.onto_nil]

/-- A list is written as its items are, one after the other. -/
theorem onto_of_items (h : Empties piece weights onto) {v : V} {vs : List V}
    (hv : piece v = .items vs) : onto "" [v] = String.join (vs.map fun v => onto "" [v]) := by
  have hturn : turn piece ("", [v]) = ("", vs) := by simp [turn, hv]
  rw [h.onto_cons, hturn, h.onto_eq, String.empty_append]

end Empties

/-! ## Values of characters -/

namespace Peg.Value

/-- What a value is on top of a stack. -/
def piece : Value → Piece Value
  | .nothing => .text ""
  | .char c => .text c.toString
  | .text s => .text s
  | .list items => .items items

mutual

/-- The text of a value, by recursion on it. -/
def textOf : Value → String
  | .nothing => ""
  | .char c => c.toString
  | .text s => s
  | .list items => textsOf items

/-- The texts of the items of a list, one after the other. -/
def textsOf : List Value → String
  | [] => ""
  | v :: vs => textOf v ++ textsOf vs

end

theorem empties : Empties piece weights flattenOnto where
  weights_nil := rfl
  weights_cons out v stack := by
    cases v <;> simp [turn, piece, weights, weight, weights_append] <;> omega
  onto_nil out := by rw [flattenOnto]
  onto_cons out v stack := by
    cases v <;> rw [flattenOnto] <;> simp [turn, piece]

theorem flatten_list (items : List Value) :
    (list items).flatten = String.join (items.map flatten) :=
  empties.onto_of_items rfl

mutual

theorem flatten_eq : (v : Value) → v.flatten = v.textOf
  | .nothing | .char _ | .text _ => empties.onto_of_text rfl
  | .list items => by rw [flatten_list, textOf, join_flatten_eq items]

theorem join_flatten_eq : (vs : List Value) → String.join (vs.map flatten) = textsOf vs
  | [] => by rw [List.map_nil, String.join_nil, textsOf]
  | v :: vs => by
    rw [List.map_cons, String.join_cons, textsOf, flatten_eq v, join_flatten_eq vs]

end

end Peg.Value

/-! ## Nodes -/

namespace Node

/-- What a node is on top of a stack. -/
def piece : Node → Piece Node
  | .char c => .text c.toString
  | .text s => .text s
  | .list items => .items items
  | _ => .text ""

mutual

/-- The text of a node, by recursion on it. -/
def textOf : Node → String
  | .char c => c.toString
  | .text s => s
  | .list items => textsOf items
  | _ => ""

/-- The texts of the items of a list, one after the other. -/
def textsOf : List Node → String
  | [] => ""
  | n :: ns => textOf n ++ textsOf ns

end

theorem empties : Empties piece weights flattenOnto where
  weights_nil := rfl
  weights_cons out n stack := by
    cases n <;> simp [turn, piece, weights, weight, weights_append] <;> omega
  onto_nil out := by rw [flattenOnto]
  onto_cons out n stack := by
    cases n <;> rw [flattenOnto] <;> simp [turn, piece]

theorem flatten_list (items : List Node) :
    (list items).flatten = String.join (items.map flatten) :=
  empties.onto_of_items rfl

mutual

theorem flatten_eq : (n : Node) → n.flatten = n.textOf
  | .nothing | .char _ | .text _ | .token _ | .stmt _ | .expr _ | .ptrn _ | .eqtn _ =>
    empties.onto_of_text rfl
  | .list items => by rw [flatten_list, textOf, join_flatten_eq items]

theorem join_flatten_eq : (ns : List Node) → String.join (ns.map flatten) = textsOf ns
  | [] => by rw [List.map_nil, String.join_nil, textsOf]
  | n :: ns => by
    rw [List.map_cons, String.join_cons, textsOf, flatten_eq n, join_flatten_eq ns]

end

@[simp] theorem flatten_nothing : nothing.flatten = "" := empties.onto_of_text rfl

@[simp] theorem flatten_char (c : Char) : (char c).flatten = c.toString := empties.onto_of_text rfl

/-- Nodes that are written as one character each are written as the text of these characters. -/
theorem flatten_list_map {f : Char → Node} (hf : ∀ c, (f c).flatten = c.toString)
    (u : List Char) : (list (u.map f)).flatten = String.ofList u := by
  rw [flatten_list]
  induction u with
  | nil => rfl
  | cons c u ih =>
    rw [List.map_cons, List.map_cons, String.join_cons, ih, hf, String.ofList_cons]
    rfl

@[simp] theorem flatten_chars (cs : List Char) :
    (list (cs.map char)).flatten = String.ofList cs :=
  flatten_list_map flatten_char cs

end Node

/-! ## Groups -/

/-- Some of the values `vs`, which follow one another, stand in a list of their own in `ws`. -/
def Regroups [MatchValue V] (vs ws : List V) : Prop :=
  ∃ us inner rest, vs = us ++ inner ++ rest ∧ ws = us ++ MatchValue.list inner :: rest

/-- Where the text of a list is made of those of its items, it does not matter how they are grouped. -/
theorem join_map_eq_of_regroups [MatchValue V] {text : V → String}
    (htext : ∀ vs, text (MatchValue.list vs) = String.join (vs.map text)) {vs ws : List V}
    (h : Relation.EqvGen Regroups vs ws) :
    String.join (vs.map text) = String.join (ws.map text) := by
  induction h with
  | rel _ _ hgroup =>
    obtain ⟨us, inner, rest, rfl, rfl⟩ := hgroup
    simp only [List.map_append, List.map_cons, String.join_append, String.join_cons, htext,
      String.append_assoc]
  | refl _ => rfl
  | symm _ _ _ ih => exact ih.symm
  | trans _ _ _ _ _ ih ih' => exact ih.trans ih'

/-! ## Flattening -/

/-- Values are flattened to the text that they have by recursion. -/
structure Flattens [MatchValue V] (piece : V → Piece V) (weight : V → Nat)
    (flatten textOf : V → String) : Prop where
  text (v : V) : flatten v = textOf v
  /-- The loop empties the stack after as many turns as the value has nodes, and not before. -/
  ends (v : V) (k : Nat) : ((turn piece)^[k] ("", [v])).2 = [] ↔ weight v ≤ k
  /-- What is written then is the text of the value. -/
  writes (v : V) : (turn piece)^[weight v] ("", [v]) = (flatten v, [])
  /-- Lists that differ in their groups only have one text. -/
  regroups {vs ws : List V} : Relation.EqvGen Regroups vs ws →
    flatten (MatchValue.list vs) = flatten (MatchValue.list ws)

/-- What a stack is emptied to is the text of the value on it. -/
theorem Empties.flattens [MatchValue V] {piece : V → Piece V} {weights : List V → Nat}
    {onto : String → List V → String} {weight : V → Nat} {textOf : V → String}
    (h : Empties piece weights onto) (hweight : ∀ v, weights [v] = weight v)
    (hlist : ∀ vs, piece (MatchValue.list vs) = .items vs)
    (htext : ∀ v, onto "" [v] = textOf v) :
    Flattens piece weight (fun v => onto "" [v]) textOf where
  text := htext
  ends v k := by rw [h.iterate_turn_eq_nil_iff, hweight]
  writes v := by rw [← hweight, h.iterate_turn]
  regroups {vs ws} hgroups := by
    have hitems : ∀ vs, onto "" [MatchValue.list vs] = String.join (vs.map fun v => onto "" [v]) :=
      fun vs => h.onto_of_items (hlist vs)
    rw [hitems, hitems]
    exact join_map_eq_of_regroups hitems hgroups

/-- **Flattening is what its recursive definition says**, for the values of grammars over characters
and for nodes. The loop over an explicit stack ends, and it has written the characters and texts of
the value from left to right. How the items of lists are grouped makes no difference. -/
theorem flatten_eq_textOf :
    Flattens Value.piece Value.weight Value.flatten Value.textOf ∧
      Flattens Node.piece Node.weight Node.flatten Node.textOf := by
  constructor
  · exact Value.empties.flattens (fun v => Nat.add_zero v.weight) (fun _ => rfl) Value.flatten_eq
  · exact Node.empties.flattens (fun n => Nat.add_zero n.weight) (fun _ => rfl) Node.flatten_eq

/-- Three letters and a text, in nested lists. -/
theorem flatten_eq_textOf_letters :
    (Value.list [.list [.char 'a', .list [.char 'b']], .nothing, .text "cd"]).flatten = "abcd" ∧
      (Value.list [.char 'a', .char 'b', .nothing, .text "cd"]).flatten = "abcd" := by
  have hgroups : Relation.EqvGen Regroups [.char 'a', .char 'b', .nothing, .text "cd"]
      [Value.list [.char 'a', .list [.char 'b']], .nothing, .text "cd"] := by
    -- the inner list first
    apply Relation.EqvGen.trans _ [.char 'a', .list [.char 'b'], .nothing, .text "cd"]
    · exact .rel _ _ ⟨[.char 'a'], [.char 'b'], [.nothing, .text "cd"], rfl, rfl⟩
    · exact .rel _ _ ⟨[], [.char 'a', .list [.char 'b']], [.nothing, .text "cd"], rfl, rfl⟩
  have hflat : (Value.list [.char 'a', .char 'b', .nothing, .text "cd"]).flatten = "abcd" := by
    rw [flatten_eq_textOf.1.text]
    rfl
  have hnested := flatten_eq_textOf.1.regroups hgroups
  exact ⟨hnested.symm.trans hflat, hflat⟩

end Humus

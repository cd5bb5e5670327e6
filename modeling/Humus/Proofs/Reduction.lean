import Humus.Proofs.Peg.Totality
import Humus.Reduction

/-!
# Grammars with reductions

A reduction is total when it accepts every node that its rule can produce. A grammar is total when
its reductions are, and when its rules are not left-recursive.

## Main definitions

* `RawNode`: the nodes that a rule has before its reduction
* `bodyOf`: the bodies of the rules of a grammar
* `RuleFits`: what one rule and its reduction contribute to the totality of a grammar

## Main results

* `rulebook_reducedGrammar`: the rules of a grammar with reductions
* `total_reducedGrammar`: a grammar is total when each of its rules fits
-/

namespace Humus

open Peg (Derives Makes Pattern Refusal RuleRef Tape Verdict World)

variable {rules : List (String × Pattern Node)} {reductions : List (String × Reduction)}

@[simp] theorem Node.matchValue_list (ns : List Node) : Peg.MatchValue.list ns = Node.list ns := rfl

@[simp] theorem Node.matchValue_nothing : (Peg.MatchValue.nothing : Node) = .nothing := rfl

/-! ## Results of reductions -/

section Results

variable {α β : Type}

theorem bind_eq_ok_iff {a : Except String α} {f : α → Except String β} {b : β} :
    a >>= f = .ok b ↔ ∃ x, a = .ok x ∧ f x = .ok b := by
  cases a <;> simp [bind, Except.bind]

theorem map_eq_ok_iff {a : Except String α} {f : α → β} {b : β} :
    f <$> a = .ok b ↔ ∃ x, a = .ok x ∧ f x = b := by
  cases a <;> simp [Functor.map, Except.map]

theorem pure_eq_ok_iff {a b : α} : (pure a : Except String α) = .ok b ↔ a = b := by
  simp [pure, Except.pure]

end Results

/-! ## Rules -/

/-- The rules of the grammar number `id`, if it has rules of these names. -/
def rulesOf (id : Nat) (rules : List (String × Pattern Node)) (ref : RuleRef) : Prop :=
  ref.grammar = id ∧ ref.name ∈ rules.map Prod.fst

/-- The nodes that the rule `name` has in the end satisfy `P`: its raw nodes, if it has no
reduction, or else what the reduction makes of them. It refuses none of them. -/
def Reduces (P : Node → Prop) (name : String) (n : Node) : Option Reduction → Prop
  | none => P n
  | some reduce => ∃ u, reduce name n = .ok u ∧ P u

/-- The nodes that the rule `name` has before its reduction, over tokens that satisfy `tok`. -/
def RawNode (rules : List (String × Pattern Node)) (tok : Node → Prop)
    (shape : String → Node → Prop) (name : String) (n : Node) : Prop :=
  ∃ body ∈ rules.lookup name, body.Yields tok (fun ref => shape ref.name) n

/-- A raw node has the shape of the body of its rule. -/
theorem RawNode.yields {tok : Node → Prop} {shape : String → Node → Prop} {name : String}
    {n : Node} (h : RawNode rules tok shape name n) {body : Pattern Node}
    (hrule : rules.lookup name = some body) :
    body.Yields tok (fun ref => shape ref.name) n := by
  obtain ⟨body', hbody, hn⟩ := h
  obtain rfl : body' = body := Option.some.inj (hbody.symm.trans hrule)
  exact hn

/-- Of rules with fewer shapes there are fewer raw nodes. -/
theorem RawNode.mono {tok : Node → Prop} {shape shape' : String → Node → Prop} {name : String}
    {n : Node} (h : RawNode rules tok shape name n)
    (hshape : ∀ name n, shape name n → shape' name n) :
    RawNode rules tok shape' name n := by
  obtain ⟨body, hbody, hn⟩ := h
  exact ⟨body, hbody, Pattern.Yields.mono (fun ref => hshape ref.name) body hn⟩

/-- What one rule of a grammar of this number, and its reduction, contribute to the totality of the
grammar. -/
structure RuleFits (id : Nat) (rules : List (String × Pattern Node))
    (reductions : List (String × Reduction)) (nullables layers : List String) (tok : Node → Prop)
    (shape : String → Node → Prop) (name : String) (body : Pattern Node) : Prop where
  native : body.isForeign = false
  within : body.Within (rulesOf id rules)
  nullable : body.Nullable (fun ref => ref.name ∈ nullables) → name ∈ nullables
  opens : body.Opens (Pattern.Nullable fun ref => ref.name ∈ nullables)
    fun ref => layers.idxOf ref.name < layers.idxOf name
  reduces : ∀ n, RawNode rules tok shape name n →
    Reduces (shape name) name n (reductions.lookup name)

theorem rule?_reducedGrammar (name : String) :
    (reducedGrammar rules reductions).rule? name = (rules.lookup name).map fun body =>
      { body := some body
        transform := (reductions.lookup name).map fun reduce rule n _ => reduce rule n } := by
  simp only [Peg.Grammar.rule?, reducedGrammar]
  induction rules with
  | nil => rfl
  | cons rule rules ih =>
    obtain ⟨other, body⟩ := rule
    rw [List.map_cons, List.lookup_cons, List.lookup_cons]
    by_cases hname : name = other
    · subst hname
      rw [beq_self_eq_true]
      rfl
    · rw [beq_eq_false_iff_ne.mpr hname]
      exact ih

variable {w : World Node} {id : Nat} {name : String} {body : Pattern Node}

/-- The rules of a grammar with reductions. -/
theorem rulebook_reducedGrammar (hg : w.grammar? id = some (reducedGrammar rules reductions))
    (hbody : rules.lookup name = some body) :
    w.rulebook ⟨id, name⟩ =
      .ok (body, (reductions.lookup name).map fun reduce rule n _ => reduce rule n) := by
  simp only [World.rulebook, hg, rule?_reducedGrammar, hbody, Option.map_some, Option.getD_some]

section Derivations

variable {C : Type} {T : Tape C Node} {x y : C} {u v : Node} {reduce : Reduction}

/-- Where the reduction does not break a match off, it makes something of it. -/
theorem exists_reduced
    (hne : ∀ b, T.reduce name (some fun rule n _ => reduce rule n) x (.matched y v) ≠ .broken b) :
    ∃ u, reduce name v = .ok u ∧
      T.reduce name (some fun rule n _ => reduce rule n) x (.matched y v) = .matched y u := by
  cases hu : reduce name v with
  | ok u => exact ⟨u, rfl, by simp only [Tape.reduce, hu]⟩
  | error message =>
    refine absurd ?_ (hne (.fault (.transform name message)))
    simp only [Tape.reduce, hu]

variable (hg : w.grammar? id = some (reducedGrammar rules reductions))
  (hbody : rules.lookup name = some body)
include hg hbody

/-- A rule has the value that its reduction makes of that of its body. -/
theorem rule_of_body (hreduction : reductions.lookup name = some reduce)
    (h : Derives T w.rulebook (.whole body) x (.matched y v)) (hu : reduce name v = .ok u) :
    Derives T w.rulebook (.whole (.rule ⟨id, name⟩)) x (.matched y u) := by
  have hR := rulebook_reducedGrammar hg hbody
  rw [hreduction] at hR
  have hrule := Derives.rule hR h
  simp only [Tape.reduce, Option.map_some, hu] at hrule
  exact hrule

/-- A rule without a reduction has the value of its body. -/
theorem raw_rule_of_body (hreduction : reductions.lookup name = none)
    (h : Derives T w.rulebook (.whole body) x (.matched y v)) :
    Derives T w.rulebook (.whole (.rule ⟨id, name⟩)) x (.matched y v) := by
  have hR := rulebook_reducedGrammar hg hbody
  rw [hreduction] at hR
  exact .rule hR h

/-- A rule is refused where its body is. -/
theorem refused_rule_of_body {r : Refusal C Node}
    (h : Derives T w.rulebook (.whole body) x (.refused r)) :
    Derives T w.rulebook (.whole (.rule ⟨id, name⟩)) x (.refused (T.relabel name x r)) :=
  .rule (rulebook_reducedGrammar hg hbody) h

/-- A rule that matches has a match of its body, and the value that its reduction makes of it. -/
theorem exists_body_of_rule (hreduction : reductions.lookup name = some reduce)
    (h : Derives T w.rulebook (.whole (.rule ⟨id, name⟩)) x (.matched y u)) :
    ∃ v, Derives T w.rulebook (.whole body) x (.matched y v) ∧ reduce name v = .ok u := by
  have hR := rulebook_reducedGrammar hg hbody
  rw [hreduction] at hR
  generalize ho : Verdict.matched y u = o at h
  cases h with
  | ruleUnknown hR' => cases ho
  | @rule _ _ _ _ o hR' h =>
    rw [hR] at hR'
    cases hR'
    cases o with
    | matched z v =>
      -- the reduction changes the value only
      simp only [Tape.reduce, Option.map_some] at ho
      cases hv : reduce name v with
      | ok u' =>
        rw [hv] at ho
        cases ho
        exact ⟨v, h, hv⟩
      | error message =>
        rw [hv] at ho
        cases ho
    | refused r => cases ho
    | broken b => cases ho

/-- A rule without a reduction that matches has a match of its body. -/
theorem raw_body_of_rule (hreduction : reductions.lookup name = none)
    (h : Derives T w.rulebook (.whole (.rule ⟨id, name⟩)) x (.matched y v)) :
    Derives T w.rulebook (.whole body) x (.matched y v) := by
  have hR := rulebook_reducedGrammar hg hbody
  rw [hreduction] at hR
  generalize ho : Verdict.matched y v = o at h
  cases h with
  | ruleUnknown hR' => cases ho
  | @rule _ _ _ _ o hR' h =>
    rw [hR] at hR'
    cases hR'
    cases o with
    | matched z u =>
      cases ho
      exact h
    | refused | broken => cases ho

/-- The body of a rule that is refused is refused. -/
theorem exists_refused_body_of_rule {r : Refusal C Node}
    (h : Derives T w.rulebook (.whole (.rule ⟨id, name⟩)) x (.refused r)) :
    ∃ r, Derives T w.rulebook (.whole body) x (.refused r) := by
  have hR := rulebook_reducedGrammar hg hbody
  generalize ho : Verdict.refused r = o at h
  cases h with
  | ruleUnknown hR' => cases ho
  | @rule _ _ _ _ o hR' h =>
    rw [hR] at hR'
    cases hR'
    cases o with
    | matched z v =>
      -- the reduction does not refuse what matched
      simp only [Tape.reduce] at ho
      split at ho
      · cases ho
      · split at ho <;> cases ho
    | refused r => exact ⟨r, h⟩
    | broken b => cases ho

end Derivations

/-- The bodies of the rules of the grammar number `id`. -/
def bodyOf (id : Nat) (rules : List (String × Pattern Node)) (ref : RuleRef) :
    Option (Pattern Node) :=
  if ref.grammar = id then rules.lookup ref.name else none

/-- The bodies of the rules are those of the rulebook. -/
theorem rulebook_bodyOf (hg : w.grammar? id = some (reducedGrammar rules reductions))
    (ref : RuleRef) (body : Pattern Node) (h : bodyOf id rules ref = some body) :
    ∃ transform, w.rulebook ref = .ok (body, transform) := by
  obtain ⟨grammar, name⟩ := ref
  unfold bodyOf at h
  split at h
  · rename_i hgrammar
    obtain rfl : grammar = id := hgrammar
    exact ⟨_, rulebook_reducedGrammar hg h⟩
  · cases h

/-- A name that is used has a rule. -/
theorem exists_rule_of_rulesOf {ref : RuleRef} (href : rulesOf id rules ref)
    (hg : w.grammar? id = some (reducedGrammar rules reductions)) :
    ∃ body, rules.lookup ref.name = some body ∧ (ref.name, body) ∈ rules ∧ w.rulebook ref =
      .ok (body, (reductions.lookup ref.name).map fun reduce rule n _ => reduce rule n) := by
  obtain ⟨grammar, name⟩ := ref
  obtain ⟨rfl, hname⟩ := href
  cases hbody : rules.lookup name with
  | none =>
    obtain ⟨⟨other, body⟩, hmem, rfl⟩ := List.mem_map.mp hname
    have hne := List.lookup_eq_none_iff.mp hbody _ hmem
    rw [bne_self_eq_false] at hne
    cases hne
  | some body =>
    obtain ⟨l₁, l₂, hl, -⟩ := List.lookup_eq_some_iff.mp hbody
    refine ⟨body, rfl, ?_, rulebook_reducedGrammar hg hbody⟩
    rw [hl]
    exact List.mem_append_right _ List.mem_cons_self

/-- A reduction does not look at the place of its node. -/
theorem blind_reducedGrammar {C C' : Type} {T : Tape C Node} {T' : Tape C' Node}
    {B : C → C' → Prop} {S : RuleRef → Prop}
    (hg : w.grammar? id = some (reducedGrammar rules reductions))
    (hS : ∀ ref, S ref → rulesOf id rules ref) : w.rulebook.Blind S T T' B := by
  intro ref body f href hR x x' y y' v _ _
  obtain ⟨body', -, -, hR'⟩ := exists_rule_of_rulesOf (hS ref href) hg
  rw [hR] at hR'
  cases hreduction : reductions.lookup ref.name with
  | none =>
    rw [hreduction] at hR'
    cases hR'
  | some reduce =>
    rw [hreduction] at hR'
    cases hR'
    rfl

/-- **A grammar is total when each of its rules fits.** -/
theorem total_reducedGrammar {nullables layers : List String} {tok : Node → Prop}
    {shape : String → Node → Prop}
    (hg : w.grammar? id = some (reducedGrammar rules reductions))
    (h : ∀ rule ∈ rules, RuleFits id rules reductions nullables layers tok shape rule.1 rule.2) :
    w.rulebook.Total (rulesOf id rules) (fun ref => ref.name ∈ nullables)
      (fun ref => layers.idxOf ref.name) tok fun ref => shape ref.name := by
  -- Whatever the rulebook knows of a rule of this grammar is one of the rules that fit.
  have hfits : ∀ {ref body transform}, rulesOf id rules ref →
      w.rulebook ref = .ok (body, transform) →
      RuleFits id rules reductions nullables layers tok shape ref.name body := by
    intro ref body transform href hR
    obtain ⟨body', -, hmem, hR'⟩ := exists_rule_of_rulesOf href hg
    rw [hR] at hR'
    cases hR'
    exact h _ hmem
  refine { closed := ?_, opens := ?_, nullable := ?_, sound := ?_ }
  · intro ref body transform href hR
    exact (hfits href hR).within
  · intro ref body transform href hR
    exact (hfits href hR).opens
  · intro ref body transform href hR
    exact (hfits href hR).nullable
  · intro ref href
    obtain ⟨body, hlookup, hmem, hR⟩ := exists_rule_of_rulesOf href hg
    have hfit := h _ hmem
    refine ⟨body, _, hR, hfit.native, hfit.within, fun n hn => ?_⟩
    have hreduces := hfit.reduces n ⟨body, hlookup, hn⟩
    cases hreduction : reductions.lookup ref.name with
    | none =>
      rw [hreduction] at hreduces
      exact hreduces
    | some reduce =>
      rw [hreduction] at hreduces
      exact fun _ => hreduces

end Humus

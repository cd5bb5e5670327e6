import Humus.Proofs.Reduction
import Humus.Token.Reduction

/-!
# The token grammar is total

Over a text every rule of the token grammar matches or is refused: its reductions accept whatever
their rules produce, and none of its rules is left-recursive.

## Main definitions

* `shape name n`: the nodes that the rule `name` has in the end
* `Raw name n`: the nodes that the rule `name` has before its reduction
* `nullables`, `layers`: the rules that may match nothing, and an order of the rules

## Main results

* `total_grammar`: the token grammar is total over texts
-/

namespace Humus.Lexical

open Peg (Pattern RuleRef World)

/-! ## Shapes -/

/-- The nodes that the rule `name` has in the end. -/
@[simp] def shape : String → Node → Prop
  | "tokens", n => ∃ ns, n = .list ns ∧ ∀ u ∈ ns, ∃ t, u = .token t
  | "punct", n => ∃ c, n = .token (.punct c)
  | "name", n => ∃ s, n = .text s
  | "qchar", n => ∃ c, n = .char c
  | "_", n | "EOF", n => n = .nothing
  | "comment", _ | "EOL", _ | "space", _ => True
  | _, n => ∃ t, n = .token t

/-- The characters of a text, as nodes. -/
def IsChar (n : Node) : Prop :=
  ∃ c, n = .char c

/-- The nodes that the rule `name` has before its reduction. -/
abbrev Raw (name : String) (n : Node) : Prop :=
  RawNode rules IsChar shape name n

/-- The rules that may match without consuming a character. -/
def nullables : List String := ["_", "EOF", "tokens"]

/-- The rules, each behind those that it may enter before it has consumed a character. -/
def layers : List String := ["EOL", "space", "comment", "_", "EOF", "punct", "name", "qchar",
  "ident", "string", "char", "number", "symbol", "lexeme", "token", "tokens"]

/-! ## Quoted characters -/

theorem isSome_unescape? : ∀ c ∈ escapeChars, (unescape? c).isSome = true := by
  simp [escapeChars, unescape?]

theorem isSome_digit? {c : Char} (h : isHexDigit c = true) :
    (Number.digit? 16 c).isSome = true := by
  have hle : ∀ a b : Char, a ≤ b ↔ a.toNat ≤ b.toNat := fun _ _ => Iff.rfl
  have hdigit : c.isDigit = true ↔ '0' ≤ c ∧ c ≤ '9' := by
    rw [Char.isDigit, Bool.and_eq_true, decide_eq_true_eq, decide_eq_true_eq]
    rfl
  simp only [isHexDigit, Bool.or_eq_true, Bool.and_eq_true, decide_eq_true_eq, hdigit, hle,
    Char.reduceToNat] at h
  simp only [Number.digit?, hle, Char.reduceToNat]
  split_ifs <;> simp [Option.filter] <;> omega

theorem isSome_magnitudeFrom? (acc : Nat) {cs : List Char} (h : ∀ c ∈ cs, isHexDigit c = true) :
    (Number.magnitudeFrom? 16 acc cs).isSome = true := by
  induction cs generalizing acc with
  | nil => rfl
  | cons c cs ih =>
    obtain ⟨hc, hcs⟩ := List.forall_mem_cons.mp h
    obtain ⟨d, hd⟩ := Option.isSome_iff_exists.mp (isSome_digit? hc)
    rw [Number.magnitudeFrom?, hd]
    exact ih _ hcs

/-- Hexadecimal digits denote a character. -/
theorem isSome_unicodeEscape? {a b c d : Char} (h : ∀ x ∈ [a, b, c, d], isHexDigit x = true) :
    (unicodeEscape? (Node.list [.char a, .char b, .char c, .char d]).flatten).isSome = true := by
  have hflatten :
      (Node.list [.char a, .char b, .char c, .char d]).flatten.toList = [a, b, c, d] := by
    simp [Node.flatten, Node.flattenOnto]
  rw [unicodeEscape?, hflatten, Option.isSome_map]
  exact isSome_magnitudeFrom? 0 h

/-! ## Reductions -/

variable {n : Node}

theorem exists_reduceTokens (h : Raw "tokens" n) :
    ∃ u, reduceTokens "tokens" n = .ok u ∧ shape "tokens" u := by
  have h := h.yields rfl
  simp [call] at h
  obtain ⟨ns, rfl, hns⟩ := h
  exact ⟨.list ns, rfl, ns, rfl, hns⟩

theorem exists_reduceToken (h : Raw "token" n) :
    ∃ u, reduceToken "token" n = .ok u ∧ shape "token" u := by
  have h := h.yields rfl
  simp [call] at h
  obtain ⟨t, rfl⟩ := h
  exact ⟨.token t, rfl, t, rfl⟩

/-- A lexeme is a token, whichever alternative it is. -/
theorem shape_lexeme (h : Raw "lexeme" n) : shape "lexeme" n := by
  have h := h.yields rfl
  simp [call] at h
  rcases h with h | ⟨c, rfl⟩
  · exact h
  · exact ⟨.punct c, rfl⟩

theorem exists_reduceSymbol (h : Raw "symbol" n) :
    ∃ u, reduceSymbol "symbol" n = .ok u ∧ shape "symbol" u := by
  have h := h.yields rfl
  simp [call, char] at h
  obtain ⟨u, rfl, ⟨c, rfl⟩ | ⟨s, rfl⟩⟩ := h
  · exact ⟨.token (.symbol c.toString), rfl, _, rfl⟩
  · exact ⟨.token (.symbol s), rfl, _, rfl⟩

theorem exists_reduceNumber (h : Raw "number" n) :
    ∃ u, reduceNumber "number" n = .ok u ∧ shape "number" u := by
  have h := h.yields rfl
  simp [char, charClass] at h
  obtain ⟨sign, radix, leading, rfl, -, -, rfl | ⟨digits, rfl, -⟩⟩ := h
  · exact ⟨_, rfl, _, rfl⟩
  · exact ⟨_, rfl, _, rfl⟩

theorem exists_reduceChar (h : Raw "char" n) :
    ∃ u, reduceChar "char" n = .ok u ∧ shape "char" u := by
  have h := h.yields rfl
  simp [call, char] at h
  obtain ⟨c, rfl⟩ := h
  have hflatten : (Node.list [.nothing, .char c]).flatten.toList = [c] := by
    simp [Node.flatten, Node.flattenOnto]
  refine ⟨.token (.char c), ?_, _, rfl⟩
  rw [reduceChar, hflatten]

theorem exists_reduceString (h : Raw "string" n) :
    ∃ u, reduceString "string" n = .ok u ∧ shape "string" u := by
  have h := h.yields rfl
  simp [call, char] at h
  obtain ⟨ns, rfl, -⟩ := h
  exact ⟨_, rfl, _, rfl⟩

/-- A quoted character is an escape, four hexadecimal digits, or any character but a backslash. -/
theorem exists_quotedChar? (h : Raw "qchar" n) : ∃ c, quotedChar? n = some c := by
  have h := h.yields rfl
  simp [char, charClass, hexDigit] at h
  rcases h with ⟨_, rfl, hc, c, rfl⟩ | h | ⟨_, rfl, c, rfl⟩
  · have hmem : c ∈ escapeChars := List.contains_iff_mem.mp hc
    exact Option.isSome_iff_exists.mp (isSome_unescape? c hmem)
  · obtain ⟨_, _, _, _, rfl, ⟨ha, a, rfl⟩, ⟨hb, b, rfl⟩, ⟨hc, c, rfl⟩, hd, d, rfl⟩ := h
    have hdigits : ∀ x ∈ [a, b, c, d], isHexDigit x = true := by
      simp only [List.forall_mem_cons]
      exact ⟨ha, hb, hc, hd, fun _ h => absurd h List.not_mem_nil⟩
    exact Option.isSome_iff_exists.mp (isSome_unicodeEscape? hdigits)
  · exact ⟨c, rfl⟩

theorem exists_reduceQuotedChar (h : Raw "qchar" n) :
    ∃ u, reduceQuotedChar "qchar" n = .ok u ∧ shape "qchar" u := by
  obtain ⟨c, hc⟩ := exists_quotedChar? h
  refine ⟨.char c, ?_, c, rfl⟩
  rw [reduceQuotedChar, hc]

theorem exists_reduceIdent (h : Raw "ident" n) :
    ∃ u, reduceIdent "ident" n = .ok u ∧ shape "ident" u := by
  have h := h.yields rfl
  simp [call] at h
  obtain ⟨s, rfl⟩ := h
  rw [reduceIdent]
  split
  · exact ⟨_, rfl, _, rfl⟩
  · exact ⟨_, rfl, _, rfl⟩

theorem exists_reducePunct (h : Raw "punct" n) :
    ∃ u, reducePunct "punct" n = .ok u ∧ shape "punct" u := by
  have h := h.yields rfl
  simp [charClass, IsChar] at h
  obtain ⟨-, c, rfl⟩ := h
  exact ⟨.token (.punct c), rfl, c, rfl⟩

/-! ## Totality -/

/-- The reductions accept what their rules produce. -/
theorem reduces_rules : ∀ rule ∈ rules, ∀ n, Raw rule.1 n →
    Reduces (shape rule.1) rule.1 n (reductions.lookup rule.1) := by
  simp only [rules, List.forall_mem_cons]
  -- Names and what stands between tokens are reduced whatever they are made of.
  refine ⟨fun _ => exists_reduceTokens, fun _ => exists_reduceToken, fun _ => shape_lexeme,
    fun _ => exists_reduceSymbol, fun _ => exists_reduceNumber, fun _ => exists_reduceChar,
    fun _ => exists_reduceString, fun _ => exists_reduceQuotedChar, fun _ => exists_reduceIdent,
    fun _ _ => ⟨_, rfl, _, rfl⟩, fun _ => exists_reducePunct, fun _ _ => ⟨_, rfl, rfl⟩,
    fun _ _ => trivial, fun _ _ => trivial, fun _ _ => trivial, fun _ _ => ⟨_, rfl, rfl⟩, ?_⟩
  exact fun _ h => absurd h List.not_mem_nil

theorem native_rules : ∀ rule ∈ rules, rule.2.isForeign = false := by
  decide

theorem within_rules : ∀ rule ∈ rules, rule.2.Within (rulesOf grammarId rules) := by
  simp [rules, rulesOf, Pattern.Within, Pattern.AllWithin, call, char, charClass, hexDigit]

theorem nullable_rules : ∀ rule ∈ rules,
    rule.2.Nullable (fun ref => ref.name ∈ nullables) → rule.1 ∈ nullables := by
  simp [rules, nullables, Pattern.Nullable, Pattern.AllNullable, Pattern.AnyNullable, call, char,
    charClass, hexDigit]

theorem opens_rules : ∀ rule ∈ rules,
    rule.2.Opens (Pattern.Nullable fun ref => ref.name ∈ nullables)
      fun ref => layers.idxOf ref.name < layers.idxOf rule.1 := by
  simp [rules, nullables, Pattern.Opens, Pattern.SequenceOpens, Pattern.ChoiceOpens,
    Pattern.Nullable, Pattern.AllNullable, Pattern.AnyNullable, call, char, charClass, hexDigit]
  decide

/-- **The token grammar is total over texts.** -/
theorem total_grammar {w : World Node} (hg : w.grammar? grammarId = some grammar) :
    w.rulebook.Total (rulesOf grammarId rules) (fun ref => ref.name ∈ nullables)
      (fun ref => layers.idxOf ref.name) IsChar fun ref => shape ref.name :=
  total_reducedGrammar hg fun rule hrule => {
    native := native_rules rule hrule
    within := within_rules rule hrule
    nullable := nullable_rules rule hrule
    opens := opens_rules rule hrule
    reduces := reduces_rules rule hrule }

end Humus.Lexical

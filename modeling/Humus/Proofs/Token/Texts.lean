import Humus.Proofs.Text.Flattening
import Humus.Proofs.Text.Json
import Humus.Proofs.Token.Partition

/-!
# Texts of tokens

Names and numbers are read from letters, digits and signs, so that no blank is in their texts. Any
other token is a reserved word or is written with a quotation mark or a number sign. The text of a
token is therefore never the one that stands for the end of the input.

## Main definitions

* `Unspaced n`: no blank is in the text, name or number that a node is

## Main results

* `Lexical.total_unspaced`: the token grammar makes unspaced nodes
* `IsLexeme.text_ne`: the text of a token is not that of the end of the input
-/

namespace Humus

open Peg (Pattern)

/-- No blank is in the text, name or number that the node is. -/
def Unspaced : Node → Prop
  | .text s | .token (.ident s) => ' ' ∉ s.toList
  | .token (.number n) => ' ' ∉ n.text.toList
  | _ => True

theorem Unspaced.text_ne {t : Token} (h : Unspaced (.token t)) : t.text ≠ "end of input" := by
  intro he
  cases t with
  | keyword k => exact absurd he (by cases k <;> decide)
  | ident name => exact h (by rw [show name = "end of input" from he]; decide)
  | number n => exact h (by rw [show n.text = "end of input" from he]; decide)
  | punct c | symbol c | string c | char c =>
    have hhead := congrArg (fun s => s.toList.head?) he
    simp [Token.text, Text.quotedString, Text.quotedChar] at hhead

namespace Lexical

variable {n u : Node}

/-! ## Characters -/

theorem forall_flatten_list {P : Char → Prop} {ns : List Node}
    (h : ∀ n ∈ ns, ∃ c, n = .char c ∧ P c) : ∀ c ∈ (Node.list ns).flatten.toList, P c := by
  intro c hc
  rw [Node.flatten_list, String.toList_join, List.mem_flatMap] at hc
  obtain ⟨s, hs, hc⟩ := hc
  obtain ⟨n, hn, rfl⟩ := List.mem_map.mp hs
  obtain ⟨d, rfl, hd⟩ := h n hn
  obtain rfl : c = d := by simpa using hc
  exact hd

/-- Characters of a class that blanks are not in make an unspaced text. -/
theorem blank_not_mem_flatten {test : Char → Bool} (htest : test ' ' = false) {ns : List Node}
    (h : ∀ n ∈ ns, n.char?.any test = true ∧ IsChar n) : ' ' ∉ (Node.list ns).flatten.toList := by
  have hall : ∀ c ∈ (Node.list ns).flatten.toList, test c = true := by
    refine forall_flatten_list fun n hn => ?_
    obtain ⟨hc, c, rfl⟩ := h n hn
    exact ⟨c, rfl, hc⟩
  intro hmem
  rw [hall ' ' hmem] at htest
  cases htest

/-! ## Reductions -/

/-- The nodes that the rule `name` has in the end, with unspaced texts. -/
def spelled (name : String) (n : Node) : Prop :=
  shape name n ∧ Unspaced n

/-- The nodes that the rule `name` has before its reduction. -/
abbrev RawSpelled (name : String) (n : Node) : Prop :=
  RawNode rules IsChar spelled name n

theorem unspaced_reduceName (h : RawSpelled "name" n) (hu : reduceName "name" n = .ok u) :
    Unspaced u := by
  have h := h.yields rfl
  simp only [charClass, Pattern.Yields] at h
  obtain ⟨ns, rfl, -, hns⟩ := h
  cases hu
  exact blank_not_mem_flatten (by decide) hns

theorem unspaced_reduceIdent (h : RawSpelled "ident" n) (hu : reduceIdent "ident" n = .ok u) :
    Unspaced u := by
  have h := h.yields rfl
  obtain ⟨⟨s, rfl⟩, hs⟩ := h
  rw [reduceIdent] at hu
  split at hu <;> cases hu
  · trivial
  · exact hs

theorem blank_not_mem_text {m : Number} (hsign : ∀ c ∈ m.sign, c = '-')
    (hdigits : ' ' ∉ m.digits.toList) : ' ' ∉ m.text.toList := by
  have hradix : ' ' ∉ Nat.toDigits 10 m.radix := Text.not_mem_toDigits (by decide) _
  have hsign' : ' ' ∉ ((m.sign.map Char.toString).getD "").toList := by
    cases hs : m.sign with
    | none => simp
    | some c => rw [hsign c hs]; decide
  rw [Number.text]
  split <;> simp [hsign', hdigits, hradix]

theorem unspaced_reduceNumber (h : RawSpelled "number" n)
    (hu : reduceNumber "number" n = .ok u) : Unspaced u := by
  have h := h.yields rfl
  simp [char, charClass] at h
  obtain ⟨sign, radix, leading, rfl, hsign, ⟨-, hleading⟩, hradix⟩ := h
  have hsign' : ∀ c ∈ sign.flatten.toList.head?, c = '-' := by
    rcases hsign with rfl | rfl <;> simp [Node.flatten, Node.flattenOnto]
  rcases hradix with rfl | ⟨digits, rfl, -, hdigits⟩ <;> cases hu
  · exact blank_not_mem_text hsign' (blank_not_mem_flatten (by decide) hleading)
  · exact blank_not_mem_text hsign' (blank_not_mem_flatten (by decide) hdigits)

theorem unspaced_reduceTokens (h : RawSpelled "tokens" n) (hu : reduceTokens "tokens" n = .ok u) :
    Unspaced u := by
  have h := h.yields rfl
  simp only [Pattern.Yields, Pattern.AllYield, call] at h
  obtain ⟨_, rfl, _, _, rfl, ⟨ns, rfl, -⟩, _, _, rfl, -, rfl⟩ := h
  cases hu
  trivial

theorem unspaced_reduceToken (h : RawSpelled "token" n) (hu : reduceToken "token" n = .ok u) :
    Unspaced u := by
  have h := h.yields rfl
  obtain ⟨_, rfl, _, _, rfl, -, t, _, rfl, ⟨-, ht⟩, rfl⟩ := h
  cases hu
  exact ht

theorem unspaced_lexeme (h : RawSpelled "lexeme" n) : Unspaced n := by
  have h := h.yields rfl
  -- whichever alternative it is
  rcases h with h | h | h | h | h | h | h
  · exact h.2
  · exact h.2
  · exact h.2
  · exact h.2
  · exact h.2
  · exact h.2
  · exact h.elim

/-! The other reductions make characters, and tokens that may be written with blanks. -/

theorem unspaced_reduceSymbol (hu : reduceSymbol "symbol" n = .ok u) : Unspaced u := by
  unfold reduceSymbol at hu
  split at hu <;> cases hu <;> trivial

theorem unspaced_reduceChar (hu : reduceChar "char" n = .ok u) : Unspaced u := by
  unfold reduceChar at hu
  split at hu
  · split at hu <;> cases hu
    trivial
  · cases hu

theorem unspaced_reduceString (hu : reduceString "string" n = .ok u) : Unspaced u := by
  unfold reduceString at hu
  split at hu <;> cases hu
  trivial

theorem unspaced_reduceQuotedChar (hu : reduceQuotedChar "qchar" n = .ok u) : Unspaced u := by
  unfold reduceQuotedChar at hu
  split at hu <;> cases hu
  trivial

theorem unspaced_reducePunct (hu : reducePunct "punct" n = .ok u) : Unspaced u := by
  unfold reducePunct at hu
  split at hu <;> cases hu
  trivial

theorem unspaced_comment (h : RawSpelled "comment" n) : Unspaced n := by
  have h := h.yields rfl
  obtain ⟨ns, rfl, -⟩ := h
  trivial

theorem unspaced_endOfLine (h : RawSpelled "EOL" n) : Unspaced n := by
  have h := h.yields rfl
  rcases h with rfl | rfl | h
  · trivial
  · trivial
  · exact h.elim

theorem unspaced_space (h : RawSpelled "space" n) : Unspaced n := by
  have h := h.yields rfl
  obtain ⟨-, c, rfl⟩ := h
  trivial

/-! ## Totality -/

/-- What the rule `name` makes of a node, if it is anything, satisfies `P`. -/
def Keeps (P : Node → Prop) (name : String) (n : Node) : Option Reduction → Prop
  | none => P n
  | some reduce => ∀ u, reduce name n = .ok u → P u

theorem keeps_unspaced : ∀ rule ∈ rules, ∀ n, RawSpelled rule.1 n →
    Keeps Unspaced rule.1 n (reductions.lookup rule.1) := by
  simp only [rules, List.forall_mem_cons]
  -- rule by rule; what stands between tokens is reduced to nothing
  refine ⟨fun _ h _ => unspaced_reduceTokens h, fun _ h _ => unspaced_reduceToken h,
    fun _ h => unspaced_lexeme h, fun _ _ _ => unspaced_reduceSymbol,
    fun _ h _ => unspaced_reduceNumber h, fun _ _ _ => unspaced_reduceChar,
    fun _ _ _ => unspaced_reduceString, fun _ _ _ => unspaced_reduceQuotedChar,
    fun _ h _ => unspaced_reduceIdent h, fun _ h _ => unspaced_reduceName h,
    fun _ _ _ => unspaced_reducePunct, ?_, fun _ h => unspaced_comment h,
    fun _ h => unspaced_endOfLine h, fun _ h => unspaced_space h, ?_, ?_⟩
  · rintro _ - _ ⟨⟩
    trivial
  · rintro _ - _ ⟨⟩
    trivial
  · exact fun _ h => absurd h List.not_mem_nil

theorem reduces_spelled (rule : String × Pattern Node) (hrule : rule ∈ rules) (n : Node)
    (h : RawSpelled rule.1 n) : Reduces (spelled rule.1) rule.1 n (reductions.lookup rule.1) := by
  have hshape := reduces_rules rule hrule n (h.mono fun _ _ hn => hn.1)
  have hkeeps := keeps_unspaced rule hrule n h
  cases hreduction : reductions.lookup rule.1 with
  | none =>
    rw [hreduction] at hshape hkeeps
    exact ⟨hshape, hkeeps⟩
  | some reduce =>
    rw [hreduction] at hshape hkeeps
    obtain ⟨u, hu, hn⟩ := hshape
    exact ⟨u, hu, hn, hkeeps u hu⟩

/-- **The token grammar makes unspaced nodes.** -/
theorem total_unspaced : frontEnd.rulebook.Total (rulesOf grammarId rules)
    (fun ref => ref.name ∈ nullables) (fun ref => layers.idxOf ref.name) IsChar
    fun ref => spelled ref.name :=
  total_reducedGrammar rfl fun rule hrule => {
    native := native_rules rule hrule
    within := within_rules rule hrule
    nullable := nullable_rules rule hrule
    opens := opens_rules rule hrule
    reduces := reduces_spelled rule hrule }

end Lexical

/-- **The text of a token is not that of the end of the input.** -/
theorem IsLexeme.text_ne {l : List Char} {t : Token} (h : IsLexeme l t) :
    t.text ≠ "end of input" := by
  obtain ⟨xs, hwalks, htokens⟩ :=
    exists_walks_of_total Lexical.total_unspaced (String.ofList l)
  obtain ⟨_, ⟨x, -, hlexes⟩, rfl⟩ := (tokenize_lexes hwalks).exists_and h.2
  generalize hts : [PlacedToken.mk t .start] = ts at hlexes
  cases hlexes with
  | finish =>
    have hmem : PlacedToken.mk t .start ∈ xs.filterMap tokenAt? := by
      rw [← hts]
      exact List.mem_singleton_self _
    obtain ⟨y, hy, hat⟩ := List.mem_filterMap.mp hmem
    obtain ⟨rest, rfl⟩ := exists_eq_of_tokenAt? hat
    exact (htokens _ (List.mem_filterMap.mpr ⟨_, hy, rfl⟩)).2.text_ne

end Humus

import Humus.Proofs.Tree.Branches
import Mathlib.Order.Interval.Set.Defs

/-!
# `ELIF` is `ELSE IF`

A list of tokens in which every `ELIF` is written as `ELSE` and `IF` is matched as the list itself.
Over the chained rules only two rules can tell the lists apart: what joins a branch or a last
expression to the branch before. They come to the same in both lists, and so does all that is built
from them.

## Main definitions

* `splitElif`: a token, or `ELSE` and `IF` for `ELIF`
* `Spread ts i j`: the place `i` of the tokens is the place `j` of those that are written out

## Main results

* `Joins.exists_spread`: a joint is written out as a joint
* `exists_verdicts_spread`: every rule comes to the same in both lists
* `elif_is_else_if`: the programs of both lists are the same
-/

namespace Humus.Syntactic

open Dispatch (Terminates)
open Peg (Derives Input Pattern RuleRef Tape Verdict)
open Humus.Tree

/-! ## Tokens written out -/

/-- The token, with `ELIF` written as `ELSE` and `IF`. -/
def splitElif : Token → List Token
  | .keyword .elif => [.keyword .else, .keyword .if]
  | t => [t]

/-- The input of a list of tokens. -/
def tokenTape (ts : List Token) : Tape Nat Node :=
  (Input.items (ts.map .token)).tape

/-- The input of a list of tokens that are written out. -/
def splitTape (ts : List Token) : Tape Nat Node :=
  tokenTape (ts.flatMap splitElif)

/-- How many tokens the first `i` of a list are, written out. -/
def spread (ts : List Token) (i : Nat) : Nat :=
  ((ts.take i).flatMap splitElif).length

/-- The place `i` of the tokens is the place `j` of those that are written out. -/
def Spread (ts : List Token) (i j : Nat) : Prop :=
  i ≤ ts.length ∧ j = spread ts i

section Places

variable {ts : List Token} {i j : Nat} {t : Token}

theorem straight_tokenTape (ts : List Token) : (tokenTape ts).Straight :=
  Input.straight_items _

theorem token?_tokenTape : (tokenTape ts).token? i = ts[i]?.map .token :=
  List.getElem?_map ..

theorem getElem?_of_holds (h : (tokenTape ts).Holds i (.token t) j) :
    ts[i]? = some t ∧ j = i + 1 := by
  obtain ⟨-, ⟨⟩⟩ : i < (ts.map Node.token).length ∧ (Except.ok j : Except Peg.Break Nat) =
    .ok (i + 1) := h.next
  have htoken := h.token?
  rw [token?_tokenTape, Option.map_eq_some_iff] at htoken
  obtain ⟨t', ht, ⟨⟩⟩ := htoken
  exact ⟨ht, rfl⟩

theorem splitElif_of_ne (ht : t ≠ .keyword .elif) : splitElif t = [t] := by
  unfold splitElif
  split
  · exact absurd rfl ht
  · rfl

/-- **Where a token stands, its tokens stand** when it is written out. -/
theorem row_spread (ht : ts[i]? = some t) :
    (splitTape ts).Row (spread ts i) ((splitElif t).map .token) (spread ts (i + 1)) := by
  obtain ⟨hi, rfl⟩ := List.getElem?_eq_some_iff.mp ht
  -- the tokens before, the token and the tokens behind it are written out one after the other
  have hrow := Peg.row_items_append (((ts.take i).flatMap splitElif).map Node.token)
    ((splitElif ts[i]).map .token) (((ts.drop (i + 1)).flatMap splitElif).map .token)
  have htake : (ts.take (i + 1)).flatMap splitElif =
      (ts.take i).flatMap splitElif ++ splitElif ts[i] := by
    rw [← List.take_append_getElem hi, List.flatMap_append, List.flatMap_singleton]
  rw [← List.map_append, ← List.map_append, ← htake, ← List.flatMap_append, List.take_append_drop,
    List.length_map, List.length_map] at hrow
  exact hrow

theorem holds_spread (ht : ts[i]? = some t) (hne : t ≠ .keyword .elif) :
    (splitTape ts).Holds (spread ts i) (.token t) (spread ts (i + 1)) := by
  have hrow := row_spread ht
  rw [splitElif_of_ne hne] at hrow
  obtain ⟨j, hj, h⟩ := Peg.Tape.row_cons.mp hrow
  rwa [Peg.Tape.row_nil.mp h] at hj

theorem exists_holds_spread_elif (ht : ts[i]? = some (.keyword .elif)) :
    ∃ j, (splitTape ts).Holds (spread ts i) (.token (.keyword .else)) j ∧
      (splitTape ts).Holds j (.token (.keyword .if)) (spread ts (i + 1)) := by
  obtain ⟨j, hj, h⟩ := Peg.Tape.row_cons.mp (row_spread ht)
  obtain ⟨k, hk, h⟩ := Peg.Tape.row_cons.mp h
  cases Peg.Tape.row_nil.mp h
  exact ⟨j, hj, hk⟩

/-- The last place is the last place of the tokens that are written out. -/
theorem token?_spread_of_le (hi : ts.length ≤ i) : (splitTape ts).token? (spread ts i) = none := by
  rw [splitTape, token?_tokenTape, spread, List.take_of_length_le hi]
  simp

/-- The token at a place, written out. -/
theorem token?_spread : (splitTape ts).token? (spread ts i) =
    ts[i]?.map fun t => .token (if t = .keyword .elif then .keyword .else else t) := by
  cases ht : ts[i]? with
  | none => exact token?_spread_of_le (List.getElem?_eq_none_iff.mp ht)
  | some t =>
    by_cases hne : t = .keyword .elif
    · subst hne
      obtain ⟨j, hj, -⟩ := exists_holds_spread_elif ht
      exact hj.token?
    · rw [Option.map_some, if_neg hne]
      exact (holds_spread ht hne).token?

/-- A word that stands where a token is written out stands there itself, or it is the `ELSE` of an
`ELIF`. -/
theorem word_of_spread {k : Keyword}
    (h : (splitTape ts).token? (spread ts i) = some (.token (.keyword k))) :
    (tokenTape ts).token? i = some (.token (.keyword k)) ∨
      k = .else ∧ (tokenTape ts).token? i = some (.token (.keyword .elif)) := by
  rw [token?_spread, Option.map_eq_some_iff] at h
  obtain ⟨t, ht, heq⟩ := h
  rw [token?_tokenTape, ht]
  by_cases helif : t = .keyword .elif
  · rw [if_pos helif] at heq
    cases heq
    exact .inr ⟨rfl, congrArg (fun t => some (Node.token t)) helif⟩
  · rw [if_neg helif] at heq
    exact .inl (congrArg some heq)

/-- Later places are later places of the tokens that are written out. -/
theorem strictMonoOn_spread : StrictMonoOn (spread ts) (Set.Iic ts.length) := by
  have hsucc : ∀ i, i < ts.length → spread ts i < spread ts (i + 1) := by
    intro i hi
    apply (row_spread (List.getElem?_eq_getElem hi)).offset_lt
    unfold splitElif
    split <;> exact List.cons_ne_nil _ _
  intro i _ j hj hij
  induction hij with
  | refl => exact hsucc i hj
  | step _ ih => exact (ih (Nat.le_of_succ_le hj)).trans (hsucc _ hj)

/-- The lists come in the same order, and at the same end. -/
theorem aligned_spread : (tokenTape ts).Aligned (splitTape ts) (Spread ts) where
  token?_eq_none_iff := by
    rintro i _ ⟨-, rfl⟩
    rw [token?_spread, token?_tokenTape, Option.map_eq_none_iff, Option.map_eq_none_iff]
  lt_iff := by
    rintro i _ j _ ⟨hi, rfl⟩ ⟨hj, rfl⟩
    exact strictMonoOn_spread.lt_iff_lt hi hj

/-! ## Joints -/

/-- What stands at a place that is related, written out. -/
theorem Spread.succ (ht : ts[i]? = some t) : Spread ts (i + 1) (spread ts (i + 1)) := by
  obtain ⟨hi, -⟩ := List.getElem?_eq_some_iff.mp ht
  exact ⟨hi, rfl⟩

/-- **A joint is written out as a joint.** `ELIF` becomes `ELSE` and `IF`, and no other `IF` comes
to stand behind an `ELSE`. -/
theorem Joins.exists_spread {o o' : Verdict Nat Node} (h : Joins (tokenTape ts) i o o')
    (hi : i ≤ ts.length) :
    ∃ u u', Joins (splitTape ts) (spread ts i) u u' ∧ o.Rel (Spread ts) u ∧
      o'.Rel (Spread ts) u' := by
  have hplace : Spread ts i (spread ts i) := ⟨hi, rfl⟩
  cases h with
  | elif hx =>
    obtain ⟨ht, rfl⟩ := getElem?_of_holds hx
    obtain ⟨j, hj, hk⟩ := exists_holds_spread_elif ht
    exact ⟨_, _, .elseIf hj hk, .matched (.succ ht), .refused ⟨hplace⟩⟩
  | elseIf hx hy =>
    obtain ⟨ht, rfl⟩ := getElem?_of_holds hx
    obtain ⟨ht', rfl⟩ := getElem?_of_holds hy
    exact ⟨_, _, .elseIf (holds_spread ht (by decide)) (holds_spread ht' (by decide)),
      .matched (.succ ht'), .refused ⟨hplace⟩⟩
  | otherwise hx hy =>
    obtain ⟨ht, rfl⟩ := getElem?_of_holds hx
    refine ⟨_, _, .otherwise (holds_spread ht (by decide)) ?_, .refused ⟨.succ ht⟩,
      .matched (.succ ht)⟩
    intro hif
    rcases word_of_spread hif with hif | ⟨⟨⟩, -⟩
    exact hy hif
  | neither hx hx' =>
    refine ⟨_, _, .neither ?_ ?_, .refused ⟨hplace⟩, .refused ⟨hplace⟩⟩
    · intro helif
      rcases word_of_spread helif with helif | ⟨⟨⟩, -⟩
      exact hx helif
    · intro helse
      rcases word_of_spread helse with helse | ⟨-, helif⟩
      · exact hx' helse
      · exact hx helif

/-! ## What comes to the same -/

/-- What comes to the same in both lists: what takes a token that is neither `ELIF` nor `ELSE`, and
what joins a branch or a last expression to the branch before. -/
def Steady : Pattern Node → Prop
  | .rule ref => ref = ⟨grammarId, "elif"⟩ ∨ ref = ⟨grammarId, "otherwise"⟩
  | .terminal v => v ≠ .token (.keyword .elif) ∧ v ≠ .token (.keyword .else)
  | .predicate _ test =>
    test (.token (.keyword .elif)) = false ∧ test (.token (.keyword .else)) = false
  | _ => False

/-- The rules whose bodies are built from what comes to the same. -/
def Followed (ref : RuleRef) : Prop :=
  rulesOf grammarId Chained.rules ref ∧ ref.name ≠ "elif" ∧ ref.name ≠ "otherwise"

theorem builtFrom_rules : ∀ rule ∈ Chained.rules, rule.1 ≠ "elif" → rule.1 ≠ "otherwise" →
    rule.2.BuiltFrom Followed Steady := by
  simp [Chained.rules, rules, Chained.expr, Chained.before, Chained.behind, Chained.branch,
    Chained.tail, Steady, Followed, rulesOf, Pattern.BuiltFrom, Pattern.AllBuiltFrom, call, word,
    punct, tokenClass, argument, Node.token?]

/-- A test that neither `ELIF` nor `ELSE` passes comes to the same. -/
theorem carries_token {p : Pattern Node} {expected : Peg.Expected Node} {test : Node → Bool}
    (hp : p.test? = some (expected, test)) (helif : test (.token (.keyword .elif)) = false)
    (helse : test (.token (.keyword .else)) = false) :
    p.Carries chainedEnd.rulebook (tokenTape ts) (splitTape ts) (Spread ts) := by
  rintro i _ o ⟨hi, rfl⟩ h
  simp only [Derives.test?_iff hp] at h ⊢
  have hplace : Spread ts i (spread ts i) := ⟨hi, rfl⟩
  by_cases ht : ts[i]? = some (.keyword .elif)
  · -- neither `ELIF` passes nor the `ELSE` in its place
    have hrefused : Derives (tokenTape ts) chainedEnd.rulebook (.token expected test) i _ :=
      .tokenRefused (by rw [token?_tokenTape, ht]; exact helif)
    cases (straight_tokenTape ts).derives_unique hrefused h
    refine ⟨_, .tokenRefused ?_, .refused ⟨hplace⟩⟩
    rw [token?_spread, ht]
    exact helse
  · -- the same token, and the next places are related
    apply h.carry_token ?_ ?_ hplace
    · rw [token?_spread, token?_tokenTape]
      apply Option.map_congr
      intro t ht'
      rw [if_neg]
      rintro rfl
      exact ht ht'
    · rintro r ⟨hlt, rfl⟩
      have hlt : i < (ts.map Node.token).length := hlt
      rw [List.length_map] at hlt
      have hv := List.getElem?_eq_getElem hlt
      have hne : ts[i] ≠ .keyword .elif := fun heq => ht (heq ▸ hv)
      exact ⟨_, (holds_spread hv hne).next, .ok (.succ hv)⟩

theorem Steady.carries {p : Pattern Node} (hp : Steady p) :
    p.Carries chainedEnd.rulebook (tokenTape ts) (splitTape ts) (Spread ts) := by
  cases p with
  | terminal v => exact carries_token rfl (decide_eq_false hp.1.symm) (decide_eq_false hp.2.symm)
  | predicate label test => exact carries_token rfl hp.1 hp.2
  | rule ref =>
    rintro i _ o ⟨hi, rfl⟩ h
    obtain ⟨u, u', hjoins⟩ := exists_joins (straight_tokenTape ts) i
    obtain ⟨w, w', hjoins', hrel, hrel'⟩ := hjoins.exists_spread hi
    rcases hp with rfl | rfl
    · cases (straight_tokenTape ts).derives_unique hjoins.derives_elif h
      exact ⟨w, hjoins'.derives_elif, hrel⟩
    · cases (straight_tokenTape ts).derives_unique hjoins.derives_otherwise h
      exact ⟨w', hjoins'.derives_otherwise, hrel'⟩
  | _ => exact hp.elim

/-- **What is built from what comes to the same comes to the same.** -/
theorem exists_derives_spread {name : String} (hname : name ∈ rules.map Prod.fst)
    {o : Verdict Nat Node} (hij : Spread ts i j)
    (h : Derives (tokenTape ts) chainedEnd.rulebook (.whole (call name)) i o) :
    ∃ o', Derives (splitTape ts) chainedEnd.rulebook (.whole (call name)) j o' ∧
      o.Rel (Spread ts) o' := by
  have hclosed : ∀ ref body transform, Followed ref →
      chainedEnd.rulebook ref = .ok (body, transform) → body.BuiltFrom Followed Steady := by
    rintro ref body transform ⟨href, hne⟩ hR
    obtain ⟨body', -, hmem, hR'⟩ := exists_rule_of_rulesOf href grammar?_chainedEnd
    rw [hR] at hR'
    cases hR'
    exact builtFrom_rules _ hmem hne.1 hne.2
  have hblind : chainedEnd.rulebook.Blind Followed (tokenTape ts) (splitTape ts) (Spread ts) :=
    blind_reducedGrammar grammar?_chainedEnd fun _ href => href.1
  have hbuilt : (call name).BuiltFrom Followed Steady := by
    have hnames : ∀ name ∈ rules.map Prod.fst, name ∈ Chained.rules.map Prod.fst ∧
      name ≠ "elif" ∧ name ≠ "otherwise" := by decide
    obtain ⟨hchained, hne⟩ := hnames name hname
    exact .inl ⟨⟨rfl, hchained⟩, hne⟩
  exact h.carry aligned_spread hclosed hblind (fun p => Steady.carries) .whole hbuilt hij

end Places

/-! ## Programs -/

variable {ts : List Token} {i j : Nat} {name : String} {v : Node}

/-- **Every rule comes to the same in both lists.** It matches up to related places and with the
same value, or it is refused in both. -/
theorem exists_verdicts_spread (hname : name ∈ rules.map Prod.fst) (hij : Spread ts i j) :
    ∃ o o', Derives (tokenTape ts) frontEnd.rulebook (.whole (call name)) i o ∧
      Derives (splitTape ts) frontEnd.rulebook (.whole (call name)) j o' ∧
      ((∃ i' j' v, Spread ts i' j' ∧ o = .matched i' v ∧ o' = .matched j' v) ∨
        ∃ r r', o = .refused r ∧ o' = .refused r') := by
  have hchained : ∀ (ts : List Token) (i : Nat), ∃ o o',
      Derives (tokenTape ts) frontEnd.rulebook (.whole (call name)) i o ∧
        Derives (tokenTape ts) chainedEnd.rulebook (.whole (call name)) i o' ∧ o.Alike o' :=
    fun ts i => exists_alike_of_replaces (replaces_chained (straight_tokenTape ts)) hname i
  -- Over the chained rules, what the tokens come to is carried to those that are written out.
  obtain ⟨o, u, ho, hu, halike⟩ := hchained ts i
  obtain ⟨o', u', ho', hu', halike'⟩ := hchained (ts.flatMap splitElif) j
  obtain ⟨w, hw, hrel⟩ := exists_derives_spread hname hij hu
  cases (straight_tokenTape _).derives_unique hw hu'
  refine ⟨o, o', ho, ho', ?_⟩
  cases hrel with
  | matched hplace =>
    cases halike
    cases halike'
    exact .inl ⟨_, _, _, hplace, rfl, rfl⟩
  | refused hr =>
    cases halike
    cases halike'
    exact .inr ⟨_, _, rfl, rfl⟩
  | broken => cases halike

/-- What is read in one list is read in the other. -/
theorem exists_reads_spread_iff (hname : name ∈ rules.map Prod.fst) (hij : Spread ts i j) :
    (∃ i', Reads (tokenTape ts) name i i' v) ↔ ∃ j', Reads (splitTape ts) name j j' v := by
  obtain ⟨o, o', ho, ho', ⟨i', j', u, -, rfl, rfl⟩ | ⟨r, r', rfl, rfl⟩⟩ :=
    exists_verdicts_spread hname hij
  · constructor
    · rintro ⟨i'', h⟩
      cases (straight_tokenTape _).derives_unique ho h
      exact ⟨j', ho'⟩
    · rintro ⟨j'', h⟩
      cases (straight_tokenTape _).derives_unique ho' h
      exact ⟨i', ho⟩
  · constructor
    · rintro ⟨i'', h⟩
      cases (straight_tokenTape _).derives_unique ho h
    · rintro ⟨j'', h⟩
      cases (straight_tokenTape _).derives_unique ho' h

/-- **`ELIF` is `ELSE IF`.** A list of tokens is a program if and only if it is one with every
`ELIF` written as `ELSE` and `IF`, and both are the same statements. -/
theorem elif_is_else_if (ts : List Token) (p : List Stmt) :
    (Terminates (fun fuel => Peg.parse fuel none (call "humus") (.ofList (ts.map .token)) frontEnd)
      fun r => ∃ s, r.1 = .ok s ∧ s.value = .list (p.map .stmt)) ↔
    Terminates (fun fuel => Peg.parse fuel none (call "humus")
        (.ofList ((ts.flatMap splitElif).map .token)) frontEnd)
      fun r => ∃ s, r.1 = .ok s ∧ s.value = .list (p.map .stmt) := by
  have hstart : Spread ts 0 0 := ⟨Nat.zero_le _, rfl⟩
  have hname : "humus" ∈ rules.map Prod.fst := by decide
  have hreads := exists_reads_spread_iff (v := .list (p.map .stmt)) hname hstart
  -- a parse that succeeds is a match from the first token on
  have hparse : ∀ ts : List Token,
      _ ↔ ∃ y, Reads (tokenTape ts) "humus" 0 y (.list (p.map .stmt)) :=
    fun ts => Peg.parse_ok_iff (w := frontEnd) (.items (ts.map .token)) _
  exact (hparse ts).trans (hreads.trans (hparse (ts.flatMap splitElif)).symm)

end Humus.Syntactic

import Humus.Proofs.Peg.Source

/-!
# Scanning texts

How far a pattern reads into a text may depend on what follows. Two classes of patterns read a text
in a way that survives cutting off what follows. One reads words of a language, whatever comes
behind them. The other reads as far as it can, and reads the same when the text is cut anywhere
behind the place where it stopped. Both classes are closed under what grammars of tokens are made of.

## Main definitions

* `Scanner α`: which texts are read, with a value of `α`, and which are refused
* `Scanner.Words S L`: `S` reads the words of `L`, whatever follows
* `Scanner.Takes S l rest v`: `S` reads `l`, and still does when `rest` is cut
* `Scanner.Scans S O`: `S` takes something off the texts of `O`, and refuses the others
* `Scanner.one R p`, `Scanner.all R ps`, `Scanner.any R ps`: patterns as scanners

## Main results

* `Scanner.Words.cons`, `Scanner.Words.or`, `Scanner.Words.until`: languages of sequences and choices
* `Scanner.Scans.or`, `Scanner.Scans.words_cons`, `Scanner.Scans.exists_many`: scanners of them
-/

namespace Humus

/-- The position behind a text that begins at `p`. -/
def Position.behind (p : Position) (text : List Char) : Position :=
  text.foldl Position.after p

namespace Position

@[simp] theorem behind_nil (p : Position) : p.behind [] = p := rfl

@[simp] theorem behind_cons (p : Position) (c : Char) (text : List Char) :
    p.behind (c :: text) = (p.after c).behind text := rfl

@[simp] theorem behind_append (p : Position) (text text' : List Char) :
    p.behind (text ++ text') = (p.behind text).behind text' :=
  List.foldl_append

@[simp] theorem offset_after (p : Position) (c : Char) : (p.after c).offset = p.offset + 1 := by
  unfold after
  split <;> rfl

@[simp] theorem offset_behind (p : Position) (text : List Char) :
    (p.behind text).offset = p.offset + text.length := by
  induction text generalizing p with
  | nil => rfl
  | cons c text ih =>
    rw [behind_cons, ih, offset_after, List.length_cons]
    omega

end Position

namespace Peg

@[simp] theorem position_charPlace {V : Type} [MatchValue V] (p : Position) (text : List Char) :
    (charPlace p text : Place V).position = p := by
  cases text <;> rfl

@[simp] theorem token?_charPlace {V : Type} [MatchValue V] (p : Position) (text : List Char) :
    (charPlace p text : Place V).token? = text.head?.map MatchValue.ofChar := by
  cases text <;> rfl

/-- What is read of texts, with a value of `α`. -/
structure Scanner (α : Type) where
  /-- `l` is read off the text `l ++ rest`. -/
  eats : (l rest : List Char) → α → Prop
  spurns : List Char → Prop

namespace Scanner

variable {α β : Type}

/-- `l` is read, and still is when `rest` is cut. -/
def Takes (S : Scanner α) (l rest : List Char) (v : α) : Prop :=
  ∀ rest', rest' <+: rest → S.eats l rest' v

/-- The text is refused, and still is when it is cut. -/
def Refuses (S : Scanner α) (cs : List Char) : Prop :=
  ∀ cs', cs' <+: cs → S.spurns cs'

/-- The words of `L` are read, whatever follows, and what begins with no word is refused. -/
structure Words (S : Scanner α) (L : List Char → Prop) : Prop where
  eats {l} : L l → ∃ v, ∀ rest, S.eats l rest v
  total (cs) : (∃ l rest, cs = l ++ rest ∧ L l) ∨ S.spurns cs

/-- Something is taken off the texts of `O`, and the others are refused. -/
structure Scans (S : Scanner α) (O : List Char → Prop) : Prop where
  append {cs} (rest) : O cs → O (cs ++ rest)
  takes {cs} : O cs → ∃ l rest v, cs = l ++ rest ∧ S.Takes l rest v
  spurns {cs} : ¬ O cs → S.spurns cs

/-- The texts that begin with a word of `L`. -/
def Begins (L : List Char → Prop) (cs : List Char) : Prop :=
  ∃ l rest, cs = l ++ rest ∧ L l

/-- The texts that are one character of a class. -/
def OneOf (test : Char → Bool) (l : List Char) : Prop :=
  ∃ c, l = [c] ∧ test c = true

/-- Neither of two texts begins with the other. -/
def Apart (a b : List Char) : Prop :=
  ¬ a <+: b ∧ ¬ b <+: a

/-- Texts with different first characters are apart. -/
theorem apart_cons {c d : Char} (h : c ≠ d) (a b : List Char) : Apart (c :: a) (d :: b) :=
  ⟨fun hab => h (List.cons_prefix_cons.mp hab).1, fun hba => h (List.cons_prefix_cons.mp hba).1.symm⟩

/-- Texts that are apart are apart behind the same character. -/
theorem Apart.cons {a b : List Char} (h : Apart a b) (c : Char) : Apart (c :: a) (c :: b) :=
  ⟨fun hab => h.1 (List.cons_prefix_cons.mp hab).2, fun hba => h.2 (List.cons_prefix_cons.mp hba).2⟩

section Lemmas

variable {S : Scanner α} {S' : Scanner β} {L : List Char → Prop} {O : List Char → Prop}
  {test : Char → Bool} {cs l rest : List Char}

theorem not_begins_oneOf (h : cs.head?.any test = false) : ¬ Begins (OneOf test) cs := by
  rintro ⟨_, rest, rfl, c, rfl, hc⟩
  simp [hc] at h

/-- What reads words takes them. -/
theorem Words.scans (h : S.Words L) : S.Scans (Begins L) where
  append := by
    rintro _ rest' ⟨l, rest, rfl, hl⟩
    exact ⟨l, rest ++ rest', List.append_assoc .., hl⟩
  takes := by
    rintro _ ⟨l, rest, rfl, hl⟩
    obtain ⟨v, hv⟩ := h.eats hl
    exact ⟨l, rest, v, rfl, fun rest' _ => hv rest'⟩
  spurns hcs := (h.total _).resolve_left hcs

/-- What is refused is refused when it is cut. -/
theorem Scans.refuses (h : S.Scans O) (hcs : ¬ O cs) : S.Refuses cs := by
  rintro cs' ⟨rest, rfl⟩
  exact h.spurns fun hO => hcs (h.append rest hO)

theorem Words.iff {L' : List Char → Prop} (h : S.Words L) (hL : ∀ l, L l ↔ L' l) : S.Words L' := by
  obtain rfl : L = L' := funext fun l => propext (hL l)
  exact h

theorem not_begins_nil (hL : ∀ l, L l → l ≠ []) : ¬ Begins L [] := by
  rintro ⟨l, rest, heq, hl⟩
  exact hL l hl (List.append_eq_nil_iff.mp heq.symm).1

theorem OneOf.ne_nil (h : OneOf test l) : l ≠ [] := by
  obtain ⟨c, rfl, -⟩ := h
  exact List.cons_ne_nil c []

/-- Another scanner that reads the same texts, with other values. -/
theorem Words.map (h : S.Words L)
    (heats : ∀ v, ∃ u, ∀ l rest, S.eats l rest v → S'.eats l rest u)
    (hspurns : ∀ cs, S.spurns cs → S'.spurns cs) : S'.Words L where
  eats hl := by
    obtain ⟨v, hv⟩ := h.eats hl
    obtain ⟨u, hu⟩ := heats v
    exact ⟨u, fun rest => hu _ rest (hv rest)⟩
  total cs := (h.total cs).imp_right (hspurns cs)

/-- Another scanner that reads the same texts, with other values. -/
theorem Scans.map (h : S.Scans O)
    (heats : ∀ v, ∃ u, ∀ l rest, S.eats l rest v → S'.eats l rest u)
    (hspurns : ∀ cs, S.spurns cs → S'.spurns cs) : S'.Scans O where
  append := h.append
  takes hO := by
    obtain ⟨l, rest, v, hcs, hv⟩ := h.takes hO
    obtain ⟨u, hu⟩ := heats v
    exact ⟨l, rest, u, hcs, fun rest' hrest => hu l rest' (hv rest' hrest)⟩
  spurns hO := hspurns _ (h.spurns hO)

end Lemmas

/-! ## Patterns -/

section Patterns

variable {V : Type} [MatchValue V] [DecidableEq V] (R : Rulebook V)

/-- At a text, wherever it begins, the task takes `l` off it. -/
def Eats (task : Task (Place V) V) (l rest : List Char) (v : V) : Prop :=
  ∀ p : Position, Derives (lazyTape R) R task (charPlace p (l ++ rest))
    (.matched (charPlace (p.behind l) rest) v)

/-- At a text, wherever it begins, the task is refused. -/
def Spurns (task : Task (Place V) V) (cs : List Char) : Prop :=
  ∀ p : Position, ∃ r, Derives (lazyTape R) R task (charPlace p cs) (.refused r)

/-- A pattern. -/
def one (p : Pattern V) : Scanner V where
  eats := Eats R (.whole p)
  spurns := Spurns R (.whole p)

/-- All of some patterns, one after the other. -/
def all (ps : List (Pattern V)) : Scanner (List V) where
  eats l rest vs := ∀ values, Eats R (.items ps values) l rest
    (MatchValue.list (values.reverse ++ vs))
  spurns cs := ∀ values, Spurns R (.items ps values) cs

/-- The first of some patterns that matches. -/
def any (ps : List (Pattern V)) : Scanner V where
  eats l rest v := ∀ failed, Eats R (.alternatives ps failed) l rest v
  spurns cs := ∀ failed, Spurns R (.alternatives ps failed) cs

/-- At a text, a pattern is matched as often as it can be, with the values `vs`. -/
def EatsMany (p : Pattern V) (l rest : List Char) (vs : List V) : Prop :=
  ∀ needsOne values, (lacksOne needsOne values = true → vs ≠ []) →
    Eats R (.again p needsOne values) l rest (MatchValue.list (values.reverse ++ vs))

variable {R} {p q : Pattern V} {ps : List (Pattern V)} {L L' O O' : List Char → Prop}
  {test : Char → Bool} {cs l l' rest : List Char} {v : V} {vs : List V}

/-- What is spurned is not eaten. -/
theorem Spurns.not_eats {task : Task (Place V) V} (h : Spurns R task (l ++ rest)) :
    ¬ Eats R task l rest v := by
  intro hv
  obtain ⟨r, hr⟩ := h .start
  cases hr.unique (hv .start)

/-! ### Characters -/

/-- A task that takes one token reads one character. -/
theorem eats_token {expected : Expected V} {accepts : V → Bool} {c : Char}
    (hc : accepts (MatchValue.ofChar c) = true) (rest : List Char) :
    Eats R (.token expected accepts) [c] rest (MatchValue.ofChar c) := by
  intro p
  have hnext : (lazyTape R).next (charPlace p (c :: rest)) (.ok (charPlace (p.after c) rest)) :=
    reads_iff.mpr .chars
  exact .token rfl hc hnext

theorem spurns_token {expected : Expected V} {accepts : V → Bool}
    (hcs : cs.head?.any (fun c => accepts (MatchValue.ofChar c)) = false) :
    Spurns R (.token expected accepts) cs := by
  refine fun p => ⟨_, .tokenRefused ?_⟩
  show Option.any accepts (Place.token? (charPlace p cs)) = false
  rw [token?_charPlace, Option.any_map]
  exact hcs

/-- A pattern that takes one token reads the characters of a class. -/
theorem words_token {expected : Expected V} {accepts : V → Bool}
    (h : ∀ x o, Derives (lazyTape R) R (.token expected accepts) x o →
      Derives (lazyTape R) R (.whole p) x o) :
    (one R p).Words (OneOf fun c => accepts (MatchValue.ofChar c)) where
  eats := by
    rintro _ ⟨c, rfl, hc⟩
    exact ⟨_, fun rest q => h _ _ (eats_token hc rest q)⟩
  total cs := by
    by_cases hcs : cs.head?.any (fun c => accepts (MatchValue.ofChar c)) = true
    · cases cs with
      | nil => cases hcs
      | cons c rest => exact .inl ⟨[c], rest, rfl, c, rfl, hcs⟩
    · refine .inr fun q => ?_
      obtain ⟨r, hr⟩ := spurns_token (Bool.not_eq_true _ ▸ hcs) q
      exact ⟨r, h _ _ hr⟩

theorem words_terminal (value : V) :
    (one R (.terminal value)).Words (OneOf fun c => decide (MatchValue.ofChar c = value)) :=
  words_token fun _ _ => .terminal

theorem words_predicate (label : String) (accepts : V → Bool) :
    (one R (.predicate label accepts)).Words (OneOf fun c => accepts (MatchValue.ofChar c)) :=
  words_token fun _ _ => .predicate

theorem words_any : (one R .any).Words (OneOf fun _ => true) :=
  words_token fun _ _ => .any

/-! ### Sequences -/

theorem eats_cons (h : (one R p).eats l (l' ++ rest) v) (h' : (all R ps).eats l' rest vs) :
    (all R (p :: ps)).eats (l ++ l') rest (v :: vs) := by
  intro values q
  have hitems := h' (v :: values) (q.behind l)
  rw [List.reverse_cons, List.append_assoc] at hitems
  rw [List.append_assoc, Position.behind_append]
  exact .itemsNext (h q) hitems

theorem spurns_cons (h : (one R p).spurns cs) : (all R (p :: ps)).spurns cs := by
  intro values q
  obtain ⟨r, hr⟩ := h q
  exact ⟨r, .itemsStop hr rfl⟩

theorem spurns_cons_of_eats (h : (one R p).eats l rest v) (h' : (all R ps).spurns rest) :
    (all R (p :: ps)).spurns (l ++ rest) := by
  intro values q
  obtain ⟨r, hr⟩ := h' (v :: values) (q.behind l)
  exact ⟨r, .itemsNext (h q) hr⟩

theorem eats_nil : (all R []).eats [] rest [] := by
  intro values q
  rw [List.append_nil]
  exact .itemsDone

/-- The last pattern of a sequence. -/
theorem eats_single (h : (one R p).eats l rest v) : (all R [p]).eats l rest [v] := by
  have hitems := eats_cons (show (one R p).eats l ([] ++ rest) v from h) eats_nil
  rwa [List.append_nil] at hitems

theorem Words.nil : (all R []).Words (· = []) where
  eats := by
    rintro _ rfl
    exact ⟨[], fun rest => eats_nil⟩
  total cs := .inl ⟨[], cs, rfl, rfl⟩

/-- A word of a sequence is a word of its first item and a word of the others. -/
theorem Words.cons (h : (one R p).Words L) (h' : (all R ps).Words L') :
    (all R (p :: ps)).Words fun l => ∃ a b, l = a ++ b ∧ L a ∧ L' b where
  eats := by
    rintro _ ⟨a, b, rfl, ha, hb⟩
    obtain ⟨v, hv⟩ := h.eats ha
    obtain ⟨vs, hvs⟩ := h'.eats hb
    exact ⟨v :: vs, fun rest => eats_cons (hv (b ++ rest)) (hvs rest)⟩
  total cs := by
    rcases h.total cs with ⟨a, rest, rfl, ha⟩ | hcs
    · rcases h'.total rest with ⟨b, rest, rfl, hb⟩ | hrest
      · exact .inl ⟨a ++ b, rest, (List.append_assoc ..).symm, a, b, rfl, ha, hb⟩
      · obtain ⟨v, hv⟩ := h.eats ha
        exact .inr (spurns_cons_of_eats (hv rest) hrest)
    · exact .inr (spurns_cons hcs)

theorem eats_not (h : (one R p).spurns cs) : (one R (.not p)).eats [] cs MatchValue.nothing := by
  intro q
  obtain ⟨r, hr⟩ := h q
  exact .not hr

/-- In front of a sequence, a character that must not come first. -/
theorem Words.not_cons (h : (one R p).Words (OneOf test)) (h' : (all R ps).Words L)
    (hne : ∀ l, L l → l ≠ []) :
    (all R (.not p :: ps)).Words fun l => L l ∧ l.head?.any test = false where
  eats := by
    rintro l ⟨hl, htest⟩
    obtain ⟨vs, hvs⟩ := h'.eats hl
    refine ⟨MatchValue.nothing :: vs, fun rest => ?_⟩
    -- what follows the word does not change its first character
    have hspurns : (one R p).spurns (l ++ rest) := by
      refine h.scans.spurns (not_begins_oneOf ?_)
      obtain ⟨c, l, rfl⟩ := List.exists_cons_of_ne_nil (hne l hl)
      exact htest
    exact eats_cons (eats_not hspurns) (hvs rest)
  total cs := by
    rcases h.total cs with ⟨_, rest, rfl, c, rfl, hc⟩ | hcs
    · obtain ⟨v, hv⟩ := h.eats ⟨c, rfl, hc⟩
      refine .inr (spurns_cons fun q => ?_)
      exact ⟨_, .not (hv rest q)⟩
    · rcases h'.total cs with ⟨l, rest, rfl, hl⟩ | hcs'
      · by_cases htest : l.head?.any test = true
        · -- the first character of the word would be eaten
          cases l with
          | nil => cases htest
          | cons c l =>
            obtain ⟨v, hv⟩ := h.eats ⟨c, rfl, htest⟩
            exact absurd (hv (l ++ rest)) (Spurns.not_eats hcs)
        · exact .inl ⟨l, rest, rfl, hl, Bool.not_eq_true _ ▸ htest⟩
      · refine .inr fun values q => ?_
        obtain ⟨r, hr⟩ := hcs q
        obtain ⟨r', hr'⟩ := hcs' (MatchValue.nothing :: values) q
        exact ⟨r', .itemsNext (.not hr) hr'⟩

theorem eats_sequence (h : (all R ps).eats l rest vs) :
    (one R (.sequence ps)).eats l rest (MatchValue.list vs) :=
  fun q => .sequence (h [] q)

theorem spurns_sequence (h : (all R ps).spurns cs) : (one R (.sequence ps)).spurns cs := by
  intro q
  obtain ⟨r, hr⟩ := h [] q
  exact ⟨r, .sequence hr⟩

theorem Words.sequence (h : (all R ps).Words L) : (one R (.sequence ps)).Words L :=
  h.map (fun vs => ⟨MatchValue.list vs, fun _ _ => eats_sequence⟩) fun _ => spurns_sequence

/-! ### Choices -/

theorem eats_any (h : (one R p).eats l rest v) : (any R (p :: ps)).eats l rest v :=
  fun _ q => .alternativesStop (h q) rfl

theorem eats_any_of_spurns (h : (one R p).spurns (l ++ rest)) (h' : (any R ps).eats l rest v) :
    (any R (p :: ps)).eats l rest v := by
  intro failed q
  obtain ⟨r, hr⟩ := h q
  exact .alternativesNext hr (h' _ q)

theorem spurns_any (h : (one R p).spurns cs) (h' : (any R ps).spurns cs) :
    (any R (p :: ps)).spurns cs := by
  intro failed q
  obtain ⟨r, hr⟩ := h q
  obtain ⟨r', hr'⟩ := h' _ q
  exact ⟨r', .alternativesNext hr hr'⟩

theorem spurns_any_nil : (any R []).spurns cs :=
  fun _ _ => ⟨_, .alternativesDone⟩

theorem Words.any_nil : (any R []).Words fun _ => False where
  eats := False.elim
  total _ := .inr spurns_any_nil

/-- A word of a choice is a word of one of the alternatives, if their words are apart. -/
theorem Words.or (h : (one R p).Words L) (h' : (any R ps).Words L')
    (hapart : ∀ a b, L a → L' b → Apart a b) :
    (any R (p :: ps)).Words fun l => L l ∨ L' l where
  eats := by
    rintro l (hl | hl)
    · obtain ⟨v, hv⟩ := h.eats hl
      exact ⟨v, fun rest => eats_any (hv rest)⟩
    · obtain ⟨v, hv⟩ := h'.eats hl
      refine ⟨v, fun rest => eats_any_of_spurns ?_ (hv rest)⟩
      refine (h.total _).resolve_left ?_
      rintro ⟨a, rest', heq, ha⟩
      obtain ⟨hab, hba⟩ := hapart a l ha hl
      rcases List.prefix_or_prefix_of_prefix ⟨rest', heq.symm⟩ (List.prefix_append l rest) with
        hle | hle
      · exact hab hle
      · exact hba hle
  total cs := by
    rcases h.total cs with ⟨l, rest, hcs, hl⟩ | hcs
    · exact .inl ⟨l, rest, hcs, .inl hl⟩
    · rcases h'.total cs with ⟨l, rest, hcs', hl⟩ | hcs'
      · exact .inl ⟨l, rest, hcs', .inr hl⟩
      · exact .inr (spurns_any hcs hcs')

theorem eats_choice (h : (any R ps).eats l rest v) : (one R (.choice ps)).eats l rest v :=
  fun q => .choice (h none q)

theorem spurns_choice (h : (any R ps).spurns cs) : (one R (.choice ps)).spurns cs := by
  intro q
  obtain ⟨r, hr⟩ := h none q
  exact ⟨r, .choice hr⟩

theorem Words.choice (h : (any R ps).Words L) : (one R (.choice ps)).Words L :=
  h.map (fun v => ⟨v, fun _ _ => eats_choice⟩) fun _ => spurns_choice

/-- What is taken off a choice is taken off its first alternative that does not refuse. -/
theorem Scans.or (h : (one R p).Scans O) (h' : (any R ps).Scans O') :
    (any R (p :: ps)).Scans fun cs => O cs ∨ O' cs where
  append rest := Or.imp (h.append rest) (h'.append rest)
  takes := by
    intro cs hcs
    by_cases hO : O cs
    · obtain ⟨l, rest, v, rfl, hv⟩ := h.takes hO
      exact ⟨l, rest, v, rfl, fun rest' hrest => eats_any (hv rest' hrest)⟩
    · obtain ⟨l, rest, v, rfl, hv⟩ := h'.takes (hcs.resolve_left hO)
      refine ⟨l, rest, v, rfl, fun rest' hrest => eats_any_of_spurns ?_ (hv rest' hrest)⟩
      -- the alternatives before refuse the text, however it is cut
      exact h.refuses hO _ ((List.prefix_append_right_inj l).mpr hrest)
  spurns := by
    intro cs hcs
    obtain ⟨hO, hO'⟩ := not_or.mp hcs
    exact spurns_any (h.spurns hO) (h'.spurns hO')

theorem Scans.choice (h : (any R ps).Scans O) : (one R (.choice ps)).Scans O :=
  h.map (fun v => ⟨v, fun _ _ => eats_choice⟩) fun _ => spurns_choice

/-! ### Scanners in sequence -/

/-- Behind a word comes what the other items take. -/
theorem Scans.words_cons (h : (one R p).Words L) (h' : (all R ps).Scans O) :
    (all R (p :: ps)).Scans fun cs => ∃ l rest, cs = l ++ rest ∧ L l ∧ O rest where
  append := by
    rintro _ rest' ⟨l, rest, rfl, hl, hrest⟩
    exact ⟨l, rest ++ rest', List.append_assoc .., hl, h'.append rest' hrest⟩
  takes := by
    rintro _ ⟨l, rest, rfl, hl, hO⟩
    obtain ⟨v, hv⟩ := h.eats hl
    obtain ⟨l', rest, vs, rfl, hvs⟩ := h'.takes hO
    refine ⟨l ++ l', rest, v :: vs, (List.append_assoc ..).symm, fun rest' hrest => ?_⟩
    exact eats_cons (hv _) (hvs rest' hrest)
  spurns := by
    intro cs hcs
    rcases h.total cs with ⟨l, rest, rfl, hl⟩ | hspurns
    · obtain ⟨v, hv⟩ := h.eats hl
      exact spurns_cons_of_eats (hv rest) (h'.spurns fun hO => hcs ⟨l, rest, rfl, hl, hO⟩)
    · exact spurns_cons hspurns

/-- Items that are never refused take what they can behind the first one. -/
theorem Scans.cons_true (h : (one R p).Scans O) (h' : (all R ps).Scans fun _ => True) :
    (all R (p :: ps)).Scans O where
  append := h.append
  takes := by
    intro cs hO
    obtain ⟨l, rest, v, rfl, hv⟩ := h.takes hO
    obtain ⟨l', rest, vs, rfl, hvs⟩ := @Scans.takes _ _ _ h' rest trivial
    refine ⟨l ++ l', rest, v :: vs, (List.append_assoc ..).symm, fun rest' hrest => ?_⟩
    exact eats_cons (hv _ ((List.prefix_append_right_inj l').mpr hrest)) (hvs rest' hrest)
  spurns hO := spurns_cons (h.spurns hO)

theorem Scans.nil : (all R []).Scans fun _ => True where
  append _ _ := trivial
  takes := fun {cs} _ => ⟨[], cs, [], rfl, fun _ _ => eats_nil⟩
  spurns h := (h trivial).elim

theorem Scans.single (h : (one R p).Scans O) : (all R [p]).Scans O :=
  h.cons_true .nil

theorem Scans.sequence (h : (all R ps).Scans O) : (one R (.sequence ps)).Scans O :=
  h.map (fun vs => ⟨MatchValue.list vs, fun _ _ => eats_sequence⟩) fun _ => spurns_sequence

/-! ### Options -/

theorem eats_optional (h : (one R p).eats l rest v) :
    (one R (.optional p)).eats l rest (MatchValue.list [v]) :=
  fun q => .optional (h q)

theorem eats_optional_of_spurns (h : (one R p).spurns rest) :
    (one R (.optional p)).eats [] rest (MatchValue.list []) := by
  intro q
  obtain ⟨r, hr⟩ := h q
  exact .optional hr

theorem Scans.optional (h : (one R p).Scans O) : (one R (.optional p)).Scans fun _ => True where
  append _ _ := trivial
  takes := by
    intro cs _
    by_cases hO : O cs
    · obtain ⟨l, rest, v, rfl, hv⟩ := h.takes hO
      exact ⟨l, rest, _, rfl, fun rest' hrest => eats_optional (hv rest' hrest)⟩
    · refine ⟨[], cs, _, rfl, fun cs' hcs => eats_optional_of_spurns ?_⟩
      exact h.refuses hO cs' hcs
  spurns h := (h trivial).elim

/-- In front of items that never begin with it, a character may be there or not. -/
theorem Scans.optional_cons (h : (one R p).Words (OneOf test)) (h' : (all R ps).Scans O)
    (hO : ∀ cs, O cs → ¬ Begins (OneOf test) cs) :
    (all R (.optional p :: ps)).Scans fun cs =>
      (∃ l rest, cs = l ++ rest ∧ OneOf test l ∧ O rest) ∨ O cs where
  append := by
    rintro _ rest' (⟨l, rest, rfl, hl, hrest⟩ | hcs)
    · exact .inl ⟨l, rest ++ rest', List.append_assoc .., hl, h'.append rest' hrest⟩
    · exact .inr (h'.append rest' hcs)
  takes := by
    rintro cs (⟨l, rest, rfl, hl, hrest⟩ | hcs)
    · obtain ⟨v, hv⟩ := h.eats hl
      obtain ⟨l', rest, vs, rfl, hvs⟩ := h'.takes hrest
      refine ⟨l ++ l', rest, MatchValue.list [v] :: vs, (List.append_assoc ..).symm, ?_⟩
      exact fun rest' hrest' => eats_cons (eats_optional (hv _)) (hvs rest' hrest')
    · have hrefuses := h.scans.refuses (hO cs hcs)
      obtain ⟨l, rest, vs, rfl, hvs⟩ := h'.takes hcs
      refine ⟨l, rest, MatchValue.list [] :: vs, rfl, fun rest' hrest => ?_⟩
      have hspurns := hrefuses _ ((List.prefix_append_right_inj l).mpr hrest)
      exact eats_cons (l := []) (eats_optional_of_spurns hspurns) (hvs rest' hrest)
  spurns := by
    intro cs hcs
    obtain ⟨hnot, hcs⟩ := not_or.mp hcs
    rcases h.total cs with ⟨l, rest, rfl, hl⟩ | hspurns
    · obtain ⟨v, hv⟩ := h.eats hl
      refine spurns_cons_of_eats (eats_optional (hv rest)) (h'.spurns fun hrest => ?_)
      exact hnot ⟨l, rest, rfl, hl, hrest⟩
    · exact spurns_cons_of_eats (l := []) (eats_optional_of_spurns hspurns) (h'.spurns hcs)

/-! ### Repetitions -/

theorem eatsMany_nil (h : (one R p).spurns rest) : EatsMany R p [] rest [] := by
  intro needsOne values howed q
  obtain ⟨r, hr⟩ := h q
  have hstop : Derives (lazyTape R) R (.again p needsOne values) (charPlace q rest) _ :=
    .againStop hr rfl
  have hlacks : lacksOne needsOne values = false := by
    by_contra hlacks
    exact howed (Bool.not_eq_false _ ▸ hlacks) rfl
  rw [Verdict.ending, hlacks, if_neg Bool.false_ne_true] at hstop
  rw [List.append_nil]
  exact hstop

theorem eatsMany_cons (h : (one R p).eats l (l' ++ rest) v) (hl : l ≠ [])
    (h' : EatsMany R p l' rest vs) : EatsMany R p (l ++ l') rest (v :: vs) := by
  intro needsOne values _ q
  have hrest := h' needsOne (v :: values) (by simp [lacksOne]) (q.behind l)
  rw [List.reverse_cons, List.append_assoc] at hrest
  rw [List.append_assoc, Position.behind_append]
  refine .againNext (h q) ?_ hrest
  simp only [Tape.offset, lazyTape, Tape.over, position_charPlace, Position.offset_behind]
  have hlength := List.length_pos_iff.mpr hl
  omega

theorem eats_zeroOrMore (h : EatsMany R p l rest vs) :
    (one R (.zeroOrMore p)).eats l rest (MatchValue.list vs) :=
  fun q => .zeroOrMore (h false [] (by simp [lacksOne]) q)

theorem eats_oneOrMore (h : EatsMany R p l rest vs) (hne : vs ≠ []) :
    (one R (.oneOrMore p)).eats l rest (MatchValue.list vs) :=
  fun q => .oneOrMore (h true [] (fun _ => hne) q)

theorem spurns_oneOrMore (h : (one R p).spurns cs) : (one R (.oneOrMore p)).spurns cs := by
  intro q
  obtain ⟨r, hr⟩ := h q
  have hstop : Derives (lazyTape R) R (.again p true []) (charPlace q cs) _ := .againStop hr rfl
  exact ⟨r, .oneOrMore hstop⟩

/-- What refuses the empty text takes something. -/
theorem Scans.ne_nil (h : (one R p).Scans O) (hO : ¬ O [])
    (hv : (one R p).Takes l rest v) : l ≠ [] := by
  rintro rfl
  exact Spurns.not_eats (h.spurns hO) (hv [] List.nil_prefix)

/-- **A pattern is matched until it is refused**, and it is matched as often when the text is cut. -/
theorem Scans.exists_many (h : (one R p).Scans O) (hO : ¬ O []) (cs : List Char) :
    ∃ l rest vs, cs = l ++ rest ∧ (∀ rest', rest' <+: rest → EatsMany R p l rest' vs) ∧
      ¬ O rest ∧ (O cs → vs ≠ []) := by
  -- Every match takes at least one character.
  induction hn : cs.length using Nat.strongRecOn generalizing cs with
  | ind n ih =>
    by_cases hcs : O cs
    · obtain ⟨l, rest, v, rfl, hv⟩ := h.takes hcs
      have hl := h.ne_nil hO hv
      have hlength := List.length_pos_iff.mpr hl
      rw [List.length_append] at hn
      obtain ⟨l', rest, vs, rfl, hvs, hrest, -⟩ := ih rest.length (by omega) rest rfl
      refine ⟨l ++ l', rest, v :: vs, (List.append_assoc ..).symm, fun rest' hrest' => ?_, hrest,
        fun _ => List.cons_ne_nil v vs⟩
      refine eatsMany_cons (hv _ ?_) hl (hvs rest' hrest')
      exact (List.prefix_append_right_inj l').mpr hrest'
    · refine ⟨[], cs, [], rfl, fun cs' hcs' => eatsMany_nil ?_, hcs, fun h => absurd h hcs⟩
      exact h.refuses hcs cs' hcs'

theorem Scans.zeroOrMore (h : (one R p).Scans O) (hO : ¬ O []) :
    (one R (.zeroOrMore p)).Scans fun _ => True where
  append _ _ := trivial
  takes := by
    intro cs _
    obtain ⟨l, rest, vs, rfl, hvs, -, -⟩ := h.exists_many hO cs
    exact ⟨l, rest, _, rfl, fun rest' hrest => eats_zeroOrMore (hvs rest' hrest)⟩
  spurns h := (h trivial).elim

theorem Scans.oneOrMore (h : (one R p).Scans O) (hO : ¬ O []) :
    (one R (.oneOrMore p)).Scans O where
  append := h.append
  takes := by
    intro cs hcs
    obtain ⟨l, rest, vs, rfl, hvs, -, hne⟩ := h.exists_many hO cs
    exact ⟨l, rest, _, rfl, fun rest' hrest => eats_oneOrMore (hvs rest' hrest) (hne hcs)⟩
  spurns hcs := spurns_oneOrMore (h.spurns hcs)

omit [MatchValue V] [DecidableEq V] in
/-- A text begins with words, and what comes behind them begins with none. -/
theorem exists_flatten (hL : ∀ l, L l → l ≠ []) (cs : List Char) :
    ∃ ws rest, cs = List.flatten ws ++ rest ∧ (∀ w ∈ ws, L w) ∧ ¬ Begins L rest := by
  induction hn : cs.length using Nat.strongRecOn generalizing cs with
  | ind n ih =>
    by_cases hcs : Begins L cs
    · obtain ⟨l, rest, rfl, hl⟩ := hcs
      have hlength := List.length_pos_iff.mpr (hL l hl)
      rw [List.length_append] at hn
      obtain ⟨ws, rest, rfl, hws, hrest⟩ := ih rest.length (by omega) rest rfl
      exact ⟨l :: ws, rest, (List.append_assoc ..).symm, List.forall_mem_cons.mpr ⟨hl, hws⟩, hrest⟩
    · exact ⟨[], cs, rfl, fun w hw => absurd hw List.not_mem_nil, hcs⟩

/-- Words are matched one after the other, up to where no word begins. -/
theorem Words.eatsMany (h : (one R p).Words L) (hL : ∀ l, L l → l ≠ []) {ws : List (List Char)}
    (hws : ∀ w ∈ ws, L w) : ∃ vs, ∀ rest, ¬ Begins L rest → EatsMany R p ws.flatten rest vs := by
  induction ws with
  | nil => exact ⟨[], fun rest hrest => eatsMany_nil (h.scans.spurns hrest)⟩
  | cons w ws ih =>
    obtain ⟨hw, hws⟩ := List.forall_mem_cons.mp hws
    obtain ⟨v, hv⟩ := h.eats hw
    obtain ⟨vs, hvs⟩ := ih hws
    exact ⟨v :: vs, fun rest hrest => eatsMany_cons (hv _) (hL w hw) (hvs rest hrest)⟩

/-- A repetition up to a character that no word of it begins with. -/
theorem Words.until (h : (one R p).Words L) (hq : (one R q).Words (OneOf test))
    (hL : ∀ l, L l → l ≠ [] ∧ l.head?.any test = false) :
    (all R [.zeroOrMore p, q]).Words fun l =>
      ∃ ws u, l = List.flatten ws ++ u ∧ (∀ w ∈ ws, L w) ∧ OneOf test u where
  eats := by
    rintro _ ⟨ws, _, rfl, hws, c, rfl, hc⟩
    obtain ⟨v, hv⟩ := hq.eats ⟨c, rfl, hc⟩
    obtain ⟨vs, hvs⟩ := h.eatsMany (fun l hl => (hL l hl).1) hws
    refine ⟨[MatchValue.list vs, v], fun rest => ?_⟩
    have hstop : ¬ Begins L ([c] ++ rest) := by
      rintro ⟨w, rest', heq, hw⟩
      obtain ⟨hne, hhead⟩ := hL w hw
      obtain ⟨d, w, rfl⟩ := List.exists_cons_of_ne_nil hne
      cases heq
      rw [List.head?_cons, Option.any_some, hc] at hhead
      cases hhead
    exact eats_cons (eats_zeroOrMore (hvs _ hstop)) (eats_single (hv rest))
  total cs := by
    obtain ⟨ws, rest, rfl, hws, hrest⟩ := exists_flatten (fun l hl => (hL l hl).1) cs
    rcases hq.total rest with ⟨u, rest, rfl, hu⟩ | hspurns
    · exact .inl ⟨ws.flatten ++ u, rest, (List.append_assoc ..).symm, ws, u, rfl, hws, hu⟩
    · obtain ⟨vs, hvs⟩ := h.eatsMany (fun l hl => (hL l hl).1) hws
      exact .inr (spurns_cons_of_eats (eats_zeroOrMore (hvs rest hrest)) (spurns_cons hspurns))

/-! ### Rules -/

/-- A rule reads as its body does, if its transform accepts the values of the body. -/
theorem Scans.rule {ref : RuleRef} {transform : Option (Transform V)}
    (hR : R ref = .ok (p, transform)) (hmakes : ∀ v, ∃ u, ∀ l rest, (one R p).eats l rest v →
      (one R (.rule ref)).eats l rest u) (h : (one R p).Scans O) :
    (one R (.rule ref)).Scans O := by
  refine h.map hmakes fun cs hcs q => ?_
  obtain ⟨r, hr⟩ := hcs q
  exact ⟨_, .rule hR hr⟩

/-- A rule reads as its body does, if its transform accepts the values of the body. -/
theorem Words.rule {ref : RuleRef} {transform : Option (Transform V)}
    (hR : R ref = .ok (p, transform)) (hmakes : ∀ v, ∃ u, ∀ l rest, (one R p).eats l rest v →
      (one R (.rule ref)).eats l rest u) (h : (one R p).Words L) :
    (one R (.rule ref)).Words L := by
  refine h.map hmakes fun cs hcs q => ?_
  obtain ⟨r, hr⟩ := hcs q
  exact ⟨_, .rule hR hr⟩

end Patterns

end Scanner

end Peg

end Humus

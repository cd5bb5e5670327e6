import Humus.Proofs.Peg.Building
import Humus.Proofs.Peg.Order
import Mathlib.Data.List.Destutter

/-!
# The expectations of a message

The message of a failure lists what would have been accepted. Every expectation is listed by the text
that describes it, and nothing else is. A failure never names an expectation twice, but different
expectations may have one text, such as a rule and a class of tokens of one name. Of texts that
follow one another only the first is kept, so that a text is listed twice if and only if another
stands between.

## Main definitions

* `Failure.items`: the texts that the message lists
* `Enumerates items sentence`: the sentence lists the items
* `Failure.Lists`: how a failure lists what it expected

## Main results

* `nodup_dropRepeats_iff`: when dropping the repeats of a list leaves nothing twice
* `Failure.lists`: every failure lists the texts of its expectations
* `expectations_listed`: what the failures of matches list
-/

namespace Humus.Peg

/-! ## Repeats -/

section Repeats

variable {α : Type} [DecidableEq α] {a : α} {l l' : List α}

theorem dropRepeats_cons_eq_destutter' (a : α) (l : List α) :
    dropRepeats (a :: l) = l.destutter' (· ≠ ·) a := by
  induction l generalizing a with
  | nil => rfl
  | cons b l ih =>
    rw [dropRepeats, List.destutter'_cons, ih]
    by_cases hab : a = b
    · rw [if_pos hab, if_neg (not_not.mpr hab), hab]
    · rw [if_neg hab, if_pos hab]

theorem dropRepeats_eq_destutter (l : List α) : dropRepeats l = l.destutter (· ≠ ·) := by
  cases l with
  | nil => rfl
  | cons a l => exact dropRepeats_cons_eq_destutter' a l

theorem dropRepeats_sublist (l : List α) : (dropRepeats l).Sublist l := by
  rw [dropRepeats_eq_destutter]
  exact l.destutter_sublist _

theorem isChain_dropRepeats (l : List α) : (dropRepeats l).IsChain (· ≠ ·) := by
  rw [dropRepeats_eq_destutter]
  exact l.isChain_destutter _

/-- What no item of repeats another is left by dropping repeats. -/
theorem sublist_dropRepeats (hchain : l'.IsChain (· ≠ ·)) (h : l'.Sublist l) :
    l'.Sublist (dropRepeats l) := by
  fun_induction dropRepeats l generalizing l' with
  | case1 a as ih =>
    -- of two equal items that follow one another, `l'` has one at most
    apply ih hchain
    cases h with
    | cons _ h => exact h
    | cons_cons _ h =>
      cases h with
      | cons _ h => exact h.cons_cons a
      | cons_cons _ h => exact absurd rfl (List.isChain_cons_cons.mp hchain).1
  | case2 a b as _ ih =>
    cases h with
    | cons _ h => exact (ih hchain h).cons a
    | cons_cons _ h => exact (ih hchain.tail h).cons_cons a
  | case3 => exact h

theorem mem_dropRepeats : a ∈ dropRepeats l ↔ a ∈ l := by
  constructor
  · exact fun h => (dropRepeats_sublist l).subset h
  · intro h
    have hone : [a].Sublist (dropRepeats l) :=
      sublist_dropRepeats (.singleton a) (List.singleton_sublist.mpr h)
    exact List.singleton_sublist.mp hone

/-- **Dropping repeats leaves nothing twice** if and only if nothing else stands between two equal
items. -/
theorem nodup_dropRepeats_iff :
    (dropRepeats l).Nodup ↔ ∀ a b, [a, b, a].Sublist l → b = a := by
  rw [List.nodup_iff_sublist]
  constructor
  · intro hnodup a b h
    by_contra hne
    have hchain : [a, b, a].IsChain (· ≠ ·) := by simp [hne, Ne.symm hne]
    have hleft := sublist_dropRepeats hchain h
    -- the item between can be left out
    exact hnodup a ((((List.Sublist.refl [a]).cons b).cons_cons a).trans hleft)
  · intro hbetween a htwice
    obtain ⟨before, behind, heq, hbefore, hbehind⟩ := List.cons_sublist_iff.mp htwice
    obtain ⟨s, t, rfl⟩ := List.append_of_mem hbefore
    have hmem : a ∈ t ++ behind :=
      List.mem_append_right t (List.singleton_sublist.mp hbehind)
    have hchain : (a :: (t ++ behind)).IsChain (· ≠ ·) := by
      have hall := isChain_dropRepeats l
      rw [heq, List.append_assoc] at hall
      exact hall.right_of_append
    -- the item that follows the first of the two is another one
    generalize hrest : t ++ behind = rest at hmem hchain
    obtain ⟨b, rest, rfl⟩ := List.exists_cons_of_ne_nil (List.ne_nil_of_mem hmem)
    have hne : a ≠ b := (List.isChain_cons_cons.mp hchain).1
    have hlater : a ∈ rest := (List.mem_cons.mp hmem).resolve_left hne
    have hthree : [a, b, a].Sublist (dropRepeats l) := by
      rw [heq, List.append_assoc, List.cons_append, hrest]
      apply List.Sublist.trans _ (List.sublist_append_right s _)
      exact ((List.singleton_sublist.mpr hlater).cons_cons b).cons_cons a
    exact hne (hbetween a b (hthree.trans (dropRepeats_sublist l))).symm

end Repeats

/-! ## Descriptions -/

/-- The sentence lists the items, in their order. -/
inductive Enumerates : List String → String → Prop where
  | none : Enumerates [] "unexpected input"
  | one (item : String) : Enumerates [item] ("expected " ++ item)
  | several (items : List String) (last : String) : items ≠ [] →
      Enumerates (items ++ [last]) ("expected " ++ ", ".intercalate items ++ " or " ++ last)

variable {V : Type} [MatchValue V]

/-- The texts that the message of a failure lists. -/
def Failure.items (f : Failure V) : List String :=
  dropRepeats (f.expected.map Expected.describe)

/-- How a failure lists what it expected. -/
structure Failure.Lists (f : Failure V) : Prop where
  description : Enumerates f.items f.description
  /-- The texts that describe expectations are listed, and no others. -/
  mem_iff (text : String) : text ∈ f.items ↔ ∃ e ∈ f.expected, e.describe = text
  /-- They are listed in the order of the expectations. -/
  sublist : f.items.Sublist (f.expected.map Expected.describe)
  /-- No text is listed twice if and only if none with another text stands between two expectations
  of one text. -/
  nodup_iff : f.items.Nodup ↔
    ∀ a b, [a, b, a].Sublist (f.expected.map Expected.describe) → b = a

theorem Failure.description_enumerates (f : Failure V) : Enumerates f.items f.description := by
  rw [description, ← items]
  generalize f.items = items
  rcases List.eq_nil_or_concat items with rfl | ⟨first, last, rfl⟩
  · exact .none
  · rw [List.concat_eq_append, List.getLast?_concat, List.dropLast_concat]
    cases first with
    | nil => exact .one last
    | cons item first => exact .several (item :: first) last (List.cons_ne_nil item first)

/-- **Every failure lists the texts of its expectations.** -/
theorem Failure.lists (f : Failure V) : f.Lists where
  description := f.description_enumerates
  mem_iff text := by rw [items, mem_dropRepeats, List.mem_map]
  sublist := dropRepeats_sublist _
  nodup_iff := nodup_dropRepeats_iff

/-- If different expectations have different texts, each of them is listed, and none twice. -/
theorem Failure.items_eq_map {f : Failure V} (hf : f.expected.Nodup)
    (htexts : ∀ e ∈ f.expected, ∀ e' ∈ f.expected, e.describe = e'.describe → e = e') :
    f.items = f.expected.map Expected.describe ∧ f.items.Nodup := by
  have hnodup : (f.expected.map Expected.describe).Nodup :=
    List.Nodup.map_on htexts hf
  have hitems : f.items = f.expected.map Expected.describe := by
    rw [items, dropRepeats_eq_destutter]
    exact List.destutter_of_isChain _ _ hnodup.isChain
  exact ⟨hitems, hitems ▸ hnodup⟩

/-! ## Failures of matches -/

variable [DecidableEq V] {w₀ w w' : World V} {s : Stream V} {p : Pattern V} {fuel : Nat}
  {limit : Option Nat} {f : Failure V}

/-- **A match that fails names no expectation twice.** -/
theorem nodup_expected_of_parse (hbuilt : Built (fun _ => True) w₀ s w)
    (hrun : parse fuel limit p s w = some (.error (.failed f), w')) : f.expected.Nodup := by
  obtain ⟨chart, σ, hstanding⟩ := hbuilt.exists_standing
  have hstarts : Starts chart p 0 (.ask s (matcher p 0)) σ := .ask hstanding.source
  rcases hstarts.runMatch_says (hstanding.poised [] w.walked) σ.depth.lt_succ_self hrun with
    ⟨_, -, hlimit⟩ | ⟨chart', finding, hfinds, hsays, -⟩
  · cases hlimit
  · cases hfinds with
    | unread => cases hsays
    | @read _ o _ ho =>
      generalize hf : Verdict.finding _ _ = finding at hsays
      cases hsays with
      | refused _ htells =>
        cases o with
        | refused r =>
          cases hf
          rw [htells.expected]
          exact ho.nodup trivial
        | matched | broken => cases hf

/-- **What a failure lists.** The message of every failure lists the texts that describe what was
expected, all of them, and one of them twice if and only if another stands between. The failure of
a match names no expectation twice: where no two of its expectations have one text, they are listed
one by one, and none is listed twice. -/
theorem expectations_listed :
    (∀ f : Failure V, f.Lists) ∧
    ∀ {w₀ w w' : World V} {s : Stream V} {p : Pattern V} {fuel : Nat} {limit : Option Nat}
      {f : Failure V}, Built (fun _ => True) w₀ s w →
      parse fuel limit p s w = some (.error (.failed f), w') →
      f.expected.Nodup ∧
        ((∀ e ∈ f.expected, ∀ e' ∈ f.expected, e.describe = e'.describe → e = e') →
          f.items = f.expected.map Expected.describe ∧ f.items.Nodup) := by
  constructor
  · exact Failure.lists
  · intro w₀ w w' s p fuel limit f hbuilt hrun
    have hnodup := nodup_expected_of_parse hbuilt hrun
    exact ⟨hnodup, Failure.items_eq_map hnodup⟩

/-- In front of a sign there is no space, no word and not the end, and the message says so. -/
theorem expectations_listed_sign :
    ∃ fuel f w', parse fuel none (.choice [.predicate "space" isSpace, .rule ⟨0, "word"⟩, .finish])
        (.chars ['+'] .start) wordWorld = some (.error (.failed f), w') ∧
      f.items = ["space", "word", "end of input"] ∧ f.items.Nodup ∧
      f.description = "expected space, word or end of input" := by
  obtain ⟨f, w', hrun, hexpected⟩ : ∃ f w',
      parse 200 none (.choice [.predicate "space" isSpace, .rule ⟨0, "word"⟩, .finish])
        (.chars ['+'] .start) wordWorld = some (.error (.failed f), w') ∧
      f.expected = [.label "space", .rule "word", .endOfInput] := ⟨_, _, rfl, rfl⟩
  have hlisted := expectations_listed.2 (.chars : Built (fun _ => True) wordWorld _ wordWorld) hrun
  have htexts : ∀ e ∈ f.expected, ∀ e' ∈ f.expected, e.describe = e'.describe → e = e' := by
    rw [hexpected]
    decide
  obtain ⟨hitems, hnodup⟩ := hlisted.2 htexts
  rw [hexpected] at hitems
  refine ⟨200, f, w', hrun, hitems, hnodup, ?_⟩
  rw [Failure.description, ← Failure.items, hitems]
  decide

/-- A class of tokens and a rule of one name are both listed, if another class is named between. -/
theorem listed_twice :
    ∃ fuel f w', Built (fun _ => True) wordWorld (.chars ['+'] .start) wordWorld ∧
      parse fuel none (.choice [.predicate "word" isLetter, .predicate "space" isSpace,
        .rule ⟨0, "word"⟩]) (.chars ['+'] .start) wordWorld = some (.error (.failed f), w') ∧
      f.items = ["word", "space", "word"] ∧ ¬ f.items.Nodup ∧
      f.description = "expected word, space or word" := by
  refine ⟨200, _, _, .chars, rfl, ?_, ?_, ?_⟩ <;> decide

end Humus.Peg

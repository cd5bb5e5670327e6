import Humus.Proofs.Peg.Layering
import Humus.Proofs.Peg.Scanning
import Humus.Proofs.Peg.Totality
import Mathlib.Data.List.Forall2

/-!
# Matches that start later

A cursor is a snapshot: what is matched from there on depends on the tokens that are left, and on
nothing before them. A match from a later cursor of a text comes to what the rest of the text comes
to on its own, further along by the number of characters that come before, as long as the transforms
of its rules do not look at where their matches stand.

Matches compare offsets with each other only: the furthest of several refusals, a rule that is
refused at its start, a repetition that consumes nothing. All of them are moved by the same number.

## Main definitions

* `Rulebook.IgnoresSpans R S`: the transforms of the rules of `S` do not look at spans
* `Later n k i j`: the place `i` of what is left behind `k` of `n` tokens is the place `j` of all

## Main results

* `Derives.drop_report_iff`: what is derived over the tokens behind the first `k`
* `matches_restart`: matches from the cursors of a text
-/

namespace Humus.Peg

open Dispatch (Terminates)

variable {V : Type}

/-- The transforms of the rules of `S` do not look at the span of a match. -/
def Rulebook.IgnoresSpans (R : Rulebook V) (S : RuleRef → Prop) : Prop :=
  ∀ ref body f, S ref → R ref = .ok (body, some f) → ∀ v span span',
    f ref.name v span = f ref.name v span'

variable {R : Rulebook V} {S : RuleRef → Prop}

theorem Rulebook.IgnoresSpans.blind (h : R.IgnoresSpans S) {C C' : Type} (T : Tape C V)
    (T' : Tape C' V) (B : C → C' → Prop) : R.Blind S T T' B :=
  fun ref body f hS hR _ _ _ _ v _ _ => h ref body f hS hR v _ _

/-! ## The tokens behind a place -/

section Tokens

/-- The place `i` of the tokens that are left behind the first `k` of `n` is the place `j` of
all. -/
def Later (n k i j : Nat) : Prop :=
  j = k + i ∧ j ≤ n

variable {tokens : List V} {k : Nat} {position position' : Nat → Position}

/-- The tokens that are left correspond to those among all, where the offsets are moved by `k`. -/
theorem Tape.corresponds_drop
    (hposition : ∀ i, k + i ≤ tokens.length →
      (position (k + i)).offset = (position' i).offset + k) :
    (Tape.ofTokens (tokens.drop k) position').Corresponds (Tape.ofTokens tokens position)
      (Later tokens.length k) where
  token? := by
    rintro i _ ⟨rfl, -⟩
    exact List.getElem?_drop.symm
  lt_iff := by
    rintro i _ j _ ⟨rfl, hi⟩ ⟨rfl, hj⟩
    simp only [Tape.offset, Tape.ofTokens, hposition i hi, hposition j hj]
    exact Nat.add_lt_add_iff_right
  next := by
    rintro i _ r ⟨rfl, hi⟩ ⟨hlt, rfl⟩
    rw [List.length_drop] at hlt
    exact ⟨.ok (k + i + 1), ⟨by omega, rfl⟩, .ok ⟨rfl, by omega⟩⟩

/-- Among all tokens those behind the first `k` correspond to those that are left. -/
theorem Tape.drop_corresponds
    (hposition : ∀ i, k + i ≤ tokens.length →
      (position (k + i)).offset = (position' i).offset + k) :
    (Tape.ofTokens tokens position).Corresponds (Tape.ofTokens (tokens.drop k) position')
      fun j i => Later tokens.length k i j where
  token? := by
    rintro _ i ⟨rfl, -⟩
    exact List.getElem?_drop
  lt_iff := by
    rintro _ i _ j ⟨rfl, hi⟩ ⟨rfl, hj⟩
    simp only [Tape.offset, Tape.ofTokens, hposition i hi, hposition j hj]
    exact Nat.add_lt_add_iff_right.symm
  next := by
    rintro _ i r ⟨rfl, hi⟩ ⟨hlt, rfl⟩
    refine ⟨.ok (i + 1), ⟨?_, rfl⟩, .ok ⟨rfl, hlt⟩⟩
    rw [List.length_drop]
    omega

variable [MatchValue V] [DecidableEq V] {p : Pattern V}

/-- **What is derived depends on the tokens that are left.** From the place `k` on a pattern comes
to what it comes to over the tokens behind the first `k`, moved by `k`. -/
theorem Derives.drop_report_iff (hk : k ≤ tokens.length)
    (hposition : ∀ i, k + i ≤ tokens.length →
      (position (k + i)).offset = (position' i).offset + k)
    (hwithin : p.Within S) (hclosed : R.Closed S) (hignores : R.IgnoresSpans S)
    (r : Report Nat V) :
    (∃ o, Derives (Tape.ofTokens tokens position) R (.whole p) k o ∧
      (o.report position k).map Position.offset = r) ↔
      ∃ o, Derives (Tape.ofTokens (tokens.drop k) position') R (.whole p) 0 o ∧
        (o.report position' 0).map (fun q => q.offset + k) = r := by
  simp only [Verdict.report_map]
  have hstart : Later tokens.length k 0 k := ⟨rfl, hk⟩
  have hplace : ∀ i j, Later tokens.length k i j →
      (position j).offset = (position' i).offset + k := by
    rintro i _ ⟨rfl, hi⟩
    exact hposition i hi
  constructor
  · rintro ⟨o, ho, rfl⟩
    obtain ⟨o', ho', hrel⟩ := ho.transfer (Tape.drop_corresponds hposition) hclosed
      (hignores.blind _ _ _) .whole hwithin hstart
    exact ⟨o', ho', hrel.report hstart fun j i h => (hplace i j h).symm⟩
  · rintro ⟨o, ho, rfl⟩
    obtain ⟨o', ho', hrel⟩ := ho.transfer (Tape.corresponds_drop hposition) hclosed
      (hignores.blind _ _ _) .whole hwithin hstart
    exact ⟨o', ho', hrel.report hstart hplace⟩

end Tokens

/-! ## The cursors of a text -/

variable [MatchValue V]

omit [MatchValue V] in
/-- The offset of a character of a text counts the characters before it. -/
theorem Input.offset_position_text {s : String} {i : Nat} (hi : i ≤ s.toList.length) :
    ((Input.text s : Input V).position i).offset = i := by
  show (Position.start.behind (s.toList.take i)).offset = i
  rw [Position.offset_behind, List.length_take_of_le hi]
  exact Nat.zero_add i

theorem length_charPlaces (p : Position) (text : List Char) :
    (charPlaces p text : List (Place V)).length = text.length + 1 := by
  induction text generalizing p with
  | nil => rfl
  | cons c text ih => rw [charPlaces, List.length_cons, ih, List.length_cons]

variable [DecidableEq V] {p : Pattern V} {w : World V}

/-- **Matching depends on the input from its cursor on.** A text has a cursor for each of its
characters and one for its end, and a match at the cursor behind the first `k` characters reports
what a parse of the text without them reports, with every offset greater by `k`: the same value, the
same expectations or the same fault, and neither is answered unless the other is. -/
theorem matches_restart (source : String) (hwithin : p.Within S) (hclosed : w.rulebook.Closed S)
    (hignores : w.rulebook.IgnoresSpans S) :
    Terminates (fun fuel => collect fuel none (.ofString source) w) fun result =>
      ∃ cs, result.1 = .ok cs ∧ cs.length = source.toList.length + 1 ∧
        ∀ k c, cs[k]? = some c → ∀ r : Report Nat V,
          (∃ fuel out w', parseAt fuel none p c result.2 = some (out, w') ∧
            out.report.map Position.offset = r) ↔
          ∃ fuel out w', parse fuel none p (.ofString (.ofList (source.toList.drop k))) w =
            some (out, w') ∧ out.report.map (fun q => q.offset + k) = r := by
  have hw : Poised w.rulebook (fun _ => False) 1 (fun _ => none) w.unwalked :=
    ⟨rfl, .empty, fun _ h => h.elim⟩
  have hwalks := walks_chars .start source.toList w.rulebook
  apply (hwalks.terminates_collect hw rfl Nat.zero_lt_one).imp
  rintro ⟨_, w₁⟩ ⟨cs, chart, rfl, hplaces, hev⟩
  have hlength : cs.length = source.toList.length + 1 :=
    hplaces.length_eq.trans (length_charPlaces ..)
  refine ⟨cs, rfl, hlength, ?_⟩
  intro k c hc r
  -- The cursor stands at the place `k` of the text.
  obtain ⟨hlt, rfl⟩ := List.getElem?_eq_some_iff.mp hc
  have hlt' : k < (charPlaces .start source.toList : List (Place V)).length :=
    hplaces.length_eq ▸ hlt
  have hplace : Cursor.place? chart cs[k] = some (charPlaces .start source.toList)[k] :=
    hplaces.get hlt hlt'
  have hrulebook : w₁.rulebook = w.rulebook := hev.rulebook
  have hcharted : Charted w₁.rulebook (fun _ => False) chart w₁.cells := hrulebook ▸ hev.charted
  have hat := Report.map_iff ((hrulebook ▸ hwalks).parseAt_report_iff hcharted
    (fun i x => position_of_charPlaces) hplace (List.getElem?_eq_getElem hlt') p) Position.offset r
  rw [filterMap_charPlaces, hrulebook] at hat
  -- The rest of the text is a text of its own.
  set rest := String.ofList (source.toList.drop k)
  have hrest := Report.map_iff (parse_iff_derives (.text rest) p w) (fun q => q.offset + k) r
  have htoList : rest.toList = source.toList.drop k := String.toList_ofList
  have htape : (Input.text (V := V) rest).tape = .ofTokens
      ((source.toList.map MatchValue.ofChar).drop k) (Input.text (V := V) rest).position := by
    rw [← List.map_drop, ← htoList]
    rfl
  rw [htape] at hrest
  refine hat.trans (Iff.trans ?_ hrest.symm)
  apply Derives.drop_report_iff ?_ ?_ hwithin hclosed hignores
  · rw [List.length_map]
    omega
  · intro i hi
    rw [List.length_map] at hi
    have hleft : i ≤ rest.toList.length := by
      rw [htoList, List.length_drop]
      omega
    show ((Input.text (V := V) source).position (k + i)).offset = _
    rw [Input.offset_position_text hi, Input.offset_position_text hleft]
    omega

/-- The transforms of the grammar of words do not look at spans. -/
theorem ignoresSpans_wordWorld : wordWorld.rulebook.IgnoresSpans fun _ => True := by
  intro ref body f _ hR v span span'
  obtain ⟨rule, hrule, -, hf⟩ := mem_wordGrammar hR
  have hconst : ∀ r ∈ wordGrammar.rules, ∀ f, r.2.transform = some f →
      ∀ name v span span', f name v span = f name v span' := by
    simp [wordGrammar]
  exact hconst _ hrule f hf ref.name v span span'

/-- A word is matched at the third cursor of a text as it is matched on its own. -/
theorem matches_restart_word :
    Terminates (fun fuel => collect fuel none (.ofString "a bc") wordWorld) fun result =>
      ∃ cs c, result.1 = .ok cs ∧ cs[2]? = some c ∧
        ∃ fuel out w', parseAt fuel none (.rule ⟨0, "word"⟩) c result.2 = some (out, w') ∧
          out.report.map Position.offset =
            .matched 2 4 (.list [.list [.char 'b', .char 'c']]) := by
  have hrestart := matches_restart (S := fun _ => True) (w := wordWorld) (p := .rule ⟨0, "word"⟩)
    "a bc" trivial (fun _ body _ _ _ => body.within_true) ignoresSpans_wordWorld
  apply hrestart.imp
  rintro ⟨_, w₁⟩ ⟨cs, rfl, hlength, hcs⟩
  have hlt : 2 < cs.length := by
    rw [hlength]
    decide
  have hc := List.getElem?_eq_getElem hlt
  refine ⟨cs, cs[2], rfl, hc, (hcs 2 _ hc _).mpr ⟨200, ?_⟩⟩
  have hword : Stream.ofString (.ofList ("a bc".toList.drop 2)) =
      (.chars ['b', 'c'] .start : Stream Value) := by
    rw [Stream.ofString, String.toList_ofList]
    rfl
  rw [hword]
  exact ⟨_, _, rfl, rfl⟩

end Humus.Peg

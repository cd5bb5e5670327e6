import Humus.Proofs.Token.Lexemes
import Humus.Proofs.Token.Reading
import Mathlib.Data.List.Induction

/-!
# Tokens partition their source

The text of a source is made of its tokens and of the gaps between them, up to its end or to where
no token can be read. Nothing is lost and nothing is read twice. Each token is written where its
position says, and its text is read as the same token when it stands alone.

## Main definitions

* `IsGap w`: the text may stand between tokens
* `IsLexeme l t`: the text is read as the token `t` when it stands alone
* `Partitions before index text ts`: behind `before` stand the tokens `ts` and the gaps between them
* `Lexing source r`: the result `r` of tokenizing partitions the source

## Main results

* `Position.behind_start`: the row and column behind a text
* `exists_partition`: the places of the tokens of a text partition it
* `tokens_partition_source`: tokenizing partitions every source
-/

namespace Humus

open Dispatch (Terminates)
open Lexical (call lexemes)
open Peg (Chart Cursor Finds Place Pattern Poised Reads Refusal Rulebook Says Source Starts Verdict
  Walks charPlace)
open Peg.Scanner (one)

/-! ## Rows and columns -/

/-- How many characters stand behind the last line feed of a text. -/
def columnBehind (text : List Char) : Nat :=
  (text.reverse.takeWhile (· != '\n')).length

theorem columnBehind_concat (text : List Char) (c : Char) :
    columnBehind (text ++ [c]) = if c = '\n' then 0 else columnBehind text + 1 := by
  rw [columnBehind, List.reverse_append, List.reverse_singleton, List.singleton_append,
    List.takeWhile_cons]
  by_cases hc : c = '\n'
  · rw [if_pos hc, hc]
    rfl
  · rw [if_neg hc, if_pos (bne_iff_ne.mpr hc)]
    rfl

/-- The row behind a text counts its line feeds, and the column the characters behind the last. -/
theorem Position.behind_start (text : List Char) :
    Position.start.behind text = ⟨text.length, text.count '\n', columnBehind text⟩ := by
  induction text using List.reverseRecOn with
  | nil => rfl
  | append_singleton text c ih =>
    rw [behind_append, ih, behind_cons, behind_nil, after, columnBehind_concat, List.length_append,
      List.count_append, List.count_singleton]
    by_cases hc : c = '\n'
    · rw [if_pos hc, if_pos hc, if_pos (beq_iff_eq.mpr hc)]
      rfl
    · rw [if_neg hc, if_neg hc, if_neg (by simpa using hc)]
      rfl

/-! ## Partitions -/

/-- The text may stand between tokens: the rule for it matches all of it. -/
def IsGap (w : List Char) : Prop :=
  Terminates (fun fuel => Peg.parse fuel none (call "_") (.ofString (String.ofList w)) frontEnd)
    fun r => ∃ s, r.1 = .ok s ∧ s.stop.offset = w.length

/-- The text is not empty, and when it stands alone it is read as one token. -/
def IsLexeme (l : List Char) (t : Token) : Prop :=
  l ≠ [] ∧ Terminates (fun fuel => tokenize fuel none (String.ofList l)) (· = .ok [⟨t, .start⟩])

/-- The rule of the token grammar does not match at the begin of the text. -/
def RefusesText (name : String) (text : List Char) : Prop :=
  Terminates (fun fuel => Peg.parse fuel none (call name) (.ofString (String.ofList text)) frontEnd)
    fun r => ∃ f, r.1 = .error (.failed f)

/-- The text, which stands behind `before`, is made of the tokens and of the gaps between them. The
offset of a token counts the tokens before it, from `index` on. Its row and column are those of the
first character of its text. -/
inductive Partitions : (before : List Char) → (index : Nat) → (text : List Char) →
    List PlacedToken → Prop where
  | gap {before index w} : IsGap w → Partitions before index w []
  | token {before index w l text t ts} : IsGap w → IsLexeme l t →
      Partitions (before ++ w ++ l) (index + 1) text ts →
      Partitions before index (w ++ l ++ text)
        (⟨t, index, (before ++ w).count '\n', columnBehind (before ++ w)⟩ :: ts)

/-- The tokens that partition a text are written in it. -/
theorem Partitions.exists_of_mem {before text : List Char} {index : Nat} {ts : List PlacedToken}
    (h : Partitions before index text ts) {placed : PlacedToken} (hplaced : placed ∈ ts) :
    ∃ w l rest, text = w ++ l ++ rest ∧ IsLexeme l placed.token ∧
      placed.position.row = (before ++ w).count '\n' ∧
      placed.position.col = columnBehind (before ++ w) := by
  induction h with
  | gap => cases hplaced
  | @token before index w l text t ts _ hl _ ih =>
    rcases List.mem_cons.mp hplaced with rfl | hplaced
    · exact ⟨w, l, text, rfl, hl, rfl, rfl⟩
    · obtain ⟨w', l', rest, rfl, hl', hrow, hcol⟩ := ih hplaced
      refine ⟨w ++ l ++ w', l', rest, by simp only [List.append_assoc], hl', ?_, ?_⟩
      · rw [hrow, List.append_assoc, List.append_assoc, List.append_assoc]
      · rw [hcol, List.append_assoc, List.append_assoc, List.append_assoc]

/-- The token at a cursor, with its position. -/
def tokenOf? : Cursor Node → Option PlacedToken
  | .token p (.token t) _ => some ⟨t, p⟩
  | _ => none

/-- The result of tokenizing partitions the source. -/
inductive Lexing (source : String) : Except LexError (List PlacedToken) → Prop where
  /-- The tokens and the gaps between them are the source. -/
  | ok {ts} : Partitions [] 0 source.toList ts → Lexing source (.ok ts)
  /-- The tokens that were read, and the gaps between them, are the source up to the position of the
  failure. There characters remain, and no lexeme begins with them. -/
  | stalled {f cs text rest} : source.toList = text ++ rest →
      f.position.position = ⟨text.length, text.count '\n', columnBehind text⟩ →
      Terminates (fun fuel => collectTokens fuel source) (·.1 = .ok cs) →
      Partitions [] 0 text (cs.filterMap tokenOf?) →
      rest ≠ [] → (∀ name ∈ "lexeme" :: lexemes, RefusesText name rest) →
      Lexing source (.error (.stalled f))

/-! ## Matches over texts -/

variable {source : String} {p : Position} {below : Source Node} {w l rest text : List Char}
  {v : Node} {t : Token} {index : Nat} {name : String}

/-- A parse of a text says what is derived over it. -/
theorem textParse_finds {q : Pattern Node} {o : Verdict (Place Node) Node}
    (ho : Peg.Derives (Peg.lazyTape frontEnd.rulebook) frontEnd.rulebook (.whole q)
      (charPlace .start text) o) :
    Terminates (fun fuel => Peg.parse fuel none q (.ofString (String.ofList text)) frontEnd)
      fun r => ∃ chart, Says chart r.1 (o.finding (charPlace .start text)) := by
  have hw : Poised frontEnd.rulebook (fun _ => False) 1 (fun _ => none)
      { frontEnd with answers := [] } := ⟨rfl, .empty, fun _ h => h.elim⟩
  have hstarts : Starts (fun _ => none) q 0
      (.ask (.ofString (String.ofList text)) (Peg.matcher q 0)) (.chars text .start) := by
    refine .ask ?_
    rw [Peg.Stream.ofString, String.toList_ofList]
    rfl
  have hfinds : Finds frontEnd.rulebook q (.chars text .start) (o.finding _) :=
    .read (Peg.reads_iff.mpr .chars) ho
  refine (hstarts.terminates hw Nat.zero_lt_one hfinds).imp ?_
  rintro r ⟨chart, hsays, -⟩
  exact ⟨chart, hsays⟩

theorem isGap_of_eats (h : (one frontEnd.rulebook (call "_")).eats w [] v) : IsGap w := by
  have hw := h .start
  rw [List.append_nil] at hw
  refine (textParse_finds hw).imp ?_
  rintro ⟨_, w'⟩ ⟨chart, hsays⟩
  generalize hf : Verdict.finding _ _ = finding at hsays
  cases hsays with
  | matched hstart hstop =>
    cases hf
    refine ⟨_, rfl, ?_⟩
    rw [← Cursor.offset_of_place? hstop, Place.offset, Peg.position_charPlace,
      Position.offset_behind]
    exact Nat.zero_add _
  | refused | fault | silence => cases hf

theorem refusesText_of_spurns (h : (one frontEnd.rulebook (call name)).spurns text) :
    RefusesText name text := by
  obtain ⟨r, hr⟩ := h .start
  refine (textParse_finds hr).imp ?_
  rintro ⟨_, w'⟩ ⟨chart, hsays⟩
  generalize hf : Verdict.finding _ _ = finding at hsays
  cases hsays with
  | refused => exact ⟨_, rfl⟩
  | matched | fault | silence => cases hf

/-! ## Reading tokens off a text -/

/-- Behind a gap a lexeme is read as a token, and the next token is looked for behind it. -/
theorem reads_lexeme (hbelow : Reads frontEnd.rulebook below (.ok (charPlace p (w ++ (l ++ rest)))))
    (hgap : (one frontEnd.rulebook (call "_")).eats w (l ++ rest) v) (hl : l ≠ [])
    (hlexeme : (one frontEnd.rulebook (call "lexeme")).eats l rest (.token t)) (index : Nat) :
    Reads frontEnd.rulebook (.derived below (some (call "_")) (call "lexeme") index)
      (.ok (.token ⟨index, (p.behind w).row, (p.behind w).col⟩ (.token t)
        (.derived (.fixed (charPlace ((p.behind w).behind l) rest)) (some (call "_"))
          (call "lexeme") (index + 1)))) := by
  have hread : Peg.Step frontEnd.rulebook _ (.derived below _ (call "lexeme") index) _ :=
    .read hbelow (.some (hgap p)) (hlexeme (p.behind w))
  have hlt : (charPlace (p.behind w) (l ++ rest) : Place Node).offset <
      (charPlace ((p.behind w).behind l) rest : Place Node).offset := by
    have hlength := List.length_pos_iff.mpr hl
    simp only [Place.offset, Peg.position_charPlace, Position.offset_behind]
    omega
  rw [Peg.readFrom, if_pos hlt, Place.positionAt, Peg.position_charPlace] at hread
  exact Peg.reads_iff.mpr hread

/-- Behind a gap where a lexeme is refused, the tokens end. -/
theorem reads_endAt (hbelow : Reads frontEnd.rulebook below (.ok (charPlace p (w ++ rest))))
    (hgap : (one frontEnd.rulebook (call "_")).eats w rest v) {r : Refusal (Place Node) Node}
    (hr : Peg.Derives (Peg.lazyTape frontEnd.rulebook) frontEnd.rulebook (.whole (call "lexeme"))
      (charPlace (p.behind w) rest) (.refused r)) (index : Nat) :
    Reads frontEnd.rulebook (.derived below (some (call "_")) (call "lexeme") index)
      (.ok ((charPlace (p.behind w) rest).endAt index r)) :=
  Peg.reads_iff.mpr (.read hbelow (.some (hgap p)) hr)

/-- Behind a gap that no lexeme follows, the tokens end. -/
theorem exists_reads_endAt (hbelow : Reads frontEnd.rulebook below (.ok (charPlace p (w ++ rest))))
    (hgap : (one frontEnd.rulebook (call "_")).eats w rest v)
    (hspurns : (one frontEnd.rulebook (call "lexeme")).spurns rest) (index : Nat) :
    ∃ r, Reads frontEnd.rulebook (.derived below (some (call "_")) (call "lexeme") index)
      (.ok ((charPlace (p.behind w) rest).endAt index r)) := by
  obtain ⟨r, hr⟩ := hspurns (p.behind w)
  exact ⟨r, reads_endAt hbelow hgap hr index⟩

/-- What is refused over a text is refused at a place of the text. -/
theorem exists_furthest_eq {q : Pattern Node} {r : Refusal (Place Node) Node}
    (hr : Peg.Derives (Peg.lazyTape frontEnd.rulebook) frontEnd.rulebook (.whole q)
      (charPlace p text) (.refused r)) :
    ∃ eaten left, text = eaten ++ left ∧ r.furthest = charPlace (p.behind eaten) left := by
  have hhead : charPlace p text ∈ (Peg.charPlaces p text : List (Place Node)) := by
    cases text <;> exact List.mem_cons_self
  exact Peg.exists_of_mem_charPlaces ((Peg.walks_chars p text frontEnd.rulebook).all_mem hhead hr)

theorem spurns_nil : (one frontEnd.rulebook (call "lexeme")).spurns [] := by
  rcases Lexical.exists_lexeme [] with ⟨l, rest, t, heq, hl, -⟩ | ⟨hspurns, -⟩
  · exact absurd (List.append_eq_nil_iff.mp heq.symm).1 hl
  · exact hspurns

/-- A lexeme that stands alone is read as one token. -/
theorem isLexeme_of_takes
    (hgap : (one frontEnd.rulebook (call "_")).Takes [] (l ++ rest) v) (hl : l ≠ [])
    (hlexeme : (one frontEnd.rulebook (call "lexeme")).Takes l rest (.token t)) :
    IsLexeme l t := by
  have htext : Reads frontEnd.rulebook (.chars l .start)
      (.ok (charPlace .start ([] ++ (l ++ [])))) := by
    rw [List.nil_append, List.append_nil]
    exact Peg.reads_iff.mpr .chars
  -- what is taken from the text is taken from the lexeme alone, and ends the stream
  have halone : l ++ [] <+: l ++ rest := (List.prefix_append_right_inj l).mpr List.nil_prefix
  have hfirst := reads_lexeme htext (hgap _ halone) hl (hlexeme [] List.nil_prefix) 0
  have hbehind : Reads frontEnd.rulebook (.fixed (charPlace (Position.start.behind l) []))
      (.ok (charPlace (Position.start.behind l) ([] ++ []))) := Peg.reads_iff.mpr .fixed
  obtain ⟨r, hlast⟩ := exists_reads_endAt hbehind (hgap [] List.nil_prefix) spurns_nil 1
  have hwalks := Walks.next hfirst (.stop hlast rfl)
  rw [← String.toList_ofList (l := l)] at hwalks
  refine ⟨hl, (tokenize_of_getLast? hwalks rfl).imp fun r hr => ?_⟩
  cases hr
  rfl

/-- The stall was found in the text that begins at `p`: it names the character at its furthest
position, or none at the end of the text. -/
def FoundIn (p : Position) (text : List Char) (stall : Peg.Stall Node) : Prop :=
  ∃ eaten left, text = eaten ++ left ∧ stall.furthest = p.behind eaten ∧
    stall.found = left.head?.map .char

/-- What the last place of the tokens says of the text that is left. -/
inductive Leaves (p : Position) : List Char → Place Node → Prop where
  | finish {i} : Leaves p [] (.finish ⟨i, p.row, p.col⟩)
  | stalled {c rest q stall} : (∀ name ∈ "lexeme" :: lexemes,
      (one frontEnd.rulebook (call name)).spurns (c :: rest)) → stall.position = p →
      FoundIn p (c :: rest) stall → Leaves p (c :: rest) (.stalled q stall)

/-- **The places of the tokens of a text partition it.** -/
theorem exists_partition (before cs : List Char)
    (hbelow : Reads frontEnd.rulebook below (.ok (charPlace (Position.start.behind before) cs)))
    (index : Nat) :
    ∃ xs x text rest, cs = text ++ rest ∧
      Walks frontEnd.rulebook (.derived below (some (call "_")) (call "lexeme") index) xs ∧
      xs.getLast? = some x ∧ Partitions before index text (xs.filterMap tokenAt?) ∧
      Leaves (Position.start.behind (before ++ text)) rest x := by
  -- Every token takes at least one character off the text.
  induction hn : cs.length using Nat.strongRecOn generalizing before cs below index with
  | ind n ih =>
    obtain ⟨w, cs, v, v', rfl, hgap, hgap'⟩ := Lexical.exists_skips cs
    have hw : IsGap w := isGap_of_eats (hgap [] List.nil_prefix)
    have heats := hgap cs (List.prefix_refl cs)
    rcases Lexical.exists_lexeme cs with ⟨l, rest, t, rfl, hl, hlexeme⟩ | ⟨hspurns, hall⟩
    · have hread := reads_lexeme hbelow heats hl (hlexeme rest (List.prefix_refl rest)) index
      have hlength := List.length_pos_iff.mpr hl
      simp only [List.length_append] at hn
      have hnext : Reads frontEnd.rulebook
          (.fixed (charPlace (((Position.start.behind before).behind w).behind l) rest))
          (.ok (charPlace (Position.start.behind (before ++ w ++ l)) rest)) := by
        rw [Position.behind_append, Position.behind_append]
        exact Peg.reads_iff.mpr .fixed
      obtain ⟨xs, x, text, rest, rfl, hwalks, hlast, hparts, hleaves⟩ :=
        ih rest.length (by omega) (before ++ w ++ l) rest hnext (index + 1) rfl
      refine ⟨_ :: xs, x, w ++ l ++ text, rest, ?_, .next hread hwalks, ?_, ?_, ?_⟩
      · simp only [List.append_assoc]
      · rw [List.getLast?_cons, hlast]
        rfl
      · rw [← Position.behind_append, Position.behind_start]
        exact .token hw (isLexeme_of_takes hgap' hl hlexeme) hparts
      · rwa [← List.append_assoc, ← List.append_assoc]
    · obtain ⟨r, hr⟩ := hspurns ((Position.start.behind before).behind w)
      have hread := reads_endAt hbelow heats hr index
      have hend := Place.token?_endAt (charPlace ((Position.start.behind before).behind w) cs) index r
      refine ⟨_, _, w, cs, rfl, .stop hread hend, rfl, ?_, ?_⟩
      · rw [List.filterMap_cons_none (tokenAt?_eq_none hend)]
        exact .gap hw
      · rw [Position.behind_append]
        cases cs with
        | nil => exact .finish
        | cons c cs =>
          obtain ⟨eaten, left, htext, hfurthest⟩ := exists_furthest_eq hr
          refine .stalled (List.forall_mem_cons.mpr ⟨hspurns, hall⟩) rfl ⟨eaten, left, htext, ?_, ?_⟩
          · simp only [hfurthest, Peg.position_charPlace]
          · simp only [hfurthest, Peg.token?_charPlace]
            rfl

/-- Cursors hold the tokens of their places. -/
theorem filterMap_tokenOf?_eq {chart : Chart Node} {cs : List (Cursor Node)}
    {xs : List (Place Node)}
    (h : List.Forall₂ (fun c x => Cursor.place? chart c = some x) cs xs) :
    cs.filterMap tokenOf? = xs.filterMap tokenAt? := by
  induction h with
  | nil => rfl
  | @cons c x cs xs hx _ ih =>
    have htoken : tokenOf? c = tokenAt? x := by
      cases c with
      | token q u rest =>
        obtain ⟨σ, -, rfl⟩ := Option.map_eq_some_iff.mp hx
        cases u <;> rfl
      | finish | stalled => cases hx; rfl
    rw [List.filterMap_cons, List.filterMap_cons, ih, htoken]

/-- **Tokens partition their source.** Tokenizing a source terminates. If it succeeds, the source is
made of gaps, which the rule between tokens matches as a whole, and of the texts of its tokens, in
order. The text of a token is not empty and is read as that token when it stands alone. The offset
of a token counts the tokens before it, its row the line feeds before its text, and its column the
characters behind the last of them. If it fails, the same holds of the text up to the position of
the failure. There characters remain, and no rule of a lexeme matches. -/
theorem tokens_partition_source (source : String) :
    Terminates (fun fuel => tokenize fuel none source) (Lexing source) := by
  have hbelow : Reads frontEnd.rulebook (.chars source.toList .start)
      (.ok (charPlace (Position.start.behind []) source.toList)) := Peg.reads_iff.mpr .chars
  obtain ⟨xs, x, text, rest, hsource, hwalks, hlast, hparts, hleaves⟩ :=
    exists_partition [] source.toList hbelow 0
  refine (tokenize_of_getLast? hwalks hlast).imp fun r hr => ?_
  cases hleaves with
  | finish =>
    cases hr
    rw [List.append_nil] at hsource
    exact .ok (hsource ▸ hparts)
  | stalled hspurns hposition =>
    cases hr
    obtain ⟨⟨_, w'⟩, ⟨cs, chart, rfl, hplaces⟩, hcollect⟩ := exists_collect_tokenStream hwalks
    refine .stalled hsource ?_ ⟨_, rfl, hcollect⟩ ?_ (List.cons_ne_nil _ _) ?_
    · exact hposition.trans (Position.behind_start text)
    · rwa [filterMap_tokenOf?_eq hplaces]
    · exact fun name hname => refusesText_of_spurns (hspurns name hname)

end Humus

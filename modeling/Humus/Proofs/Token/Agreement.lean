import Humus.Proofs.Token.Partition

/-!
# Two ways of reading a source

The rule `tokens` reads a whole source in one match, with the gap before each token inside the
token and the last gap inside the end. Tokenizing asks for one token after the other and steps over
the gaps between them. Both stop at the same place of the source: the rule is refused there unless
nothing is left, and the stream of the tokens is then stalled.

## Main definitions

* `nodesOf xs`: the tokens at some places, as nodes
* `ReadsAlike source outcome lexed`: the outcome of the rule and the result of tokenizing agree

## Main results

* `exists_readings`: over every text both ways read the same tokens and stop at the same place
* `tokens_rule_agrees`: both ways of reading a source agree
-/

namespace Humus

open Dispatch (Terminates)
open Lexical (call grammarId reductions rulebook_call rules)
open Peg (Derives MatchValue Place Reads Source Verdict Walks charPlace)
open Peg.Scanner (EatsMany all one)

/-! ## Rules with a reduction -/

namespace Lexical

variable {name : String} {body : Peg.Pattern Node} {reduce : Reduction} {l rest cs : List Char}
  {u v : Node}

/-- A rule has the value that its reduction makes of that of its body. -/
theorem eats_call (hbody : rules.lookup name = some body)
    (hreduction : reductions.lookup name = some reduce) (hu : reduce name v = .ok u)
    (h : (one frontEnd.rulebook body).eats l rest v) :
    (one frontEnd.rulebook (call name)).eats l rest u := by
  intro p
  have hR := rulebook_call hbody
  rw [hreduction] at hR
  have hrule := Derives.rule hR (h p)
  simp only [Peg.Tape.reduce, Option.map_some, hu] at hrule
  exact hrule

/-- A rule is refused where its body is. -/
theorem spurns_call (hbody : rules.lookup name = some body)
    (h : (one frontEnd.rulebook body).spurns cs) :
    (one frontEnd.rulebook (call name)).spurns cs := by
  intro p
  obtain ⟨r, hr⟩ := h p
  exact ⟨_, .rule (rulebook_call hbody) hr⟩

/-! ## Tokens with their gaps -/

/-- A token is read together with the gap before it. -/
theorem eats_token (hgap : (one frontEnd.rulebook (call "_")).eats l (cs ++ rest) v)
    (hlexeme : (one frontEnd.rulebook (call "lexeme")).eats cs rest u) :
    (one frontEnd.rulebook (call "token")).eats (l ++ cs) rest u := by
  have hitems := Peg.Scanner.eats_cons hgap (Peg.Scanner.eats_single hlexeme)
  exact eats_call rfl rfl rfl (Peg.Scanner.eats_sequence hitems)

/-- Where no lexeme follows the gap, no token is read. -/
theorem spurns_token (hgap : (one frontEnd.rulebook (call "_")).eats l rest v)
    (hlexeme : (one frontEnd.rulebook (call "lexeme")).spurns rest) :
    (one frontEnd.rulebook (call "token")).spurns (l ++ rest) := by
  apply spurns_call rfl
  apply Peg.Scanner.spurns_sequence
  exact Peg.Scanner.spurns_cons_of_eats hgap (Peg.Scanner.spurns_cons hlexeme)

/-- The end of a source is read together with the last gap, if nothing is left behind it. -/
theorem eats_end (hgap : (one frontEnd.rulebook (call "_")).eats l [] v) :
    (one frontEnd.rulebook (call "EOF")).eats l [] .nothing := by
  have hfinish : (one frontEnd.rulebook .finish).eats [] [] (MatchValue.nothing : Node) :=
    fun p => .finish rfl
  have hitems := Peg.Scanner.eats_cons hgap (Peg.Scanner.eats_single hfinish)
  rw [List.append_nil] at hitems
  exact eats_call rfl rfl rfl (Peg.Scanner.eats_sequence hitems)

theorem spurns_end (hgap : (one frontEnd.rulebook (call "_")).eats l rest v) (hrest : rest ≠ []) :
    (one frontEnd.rulebook (call "EOF")).spurns (l ++ rest) := by
  obtain ⟨c, rest, rfl⟩ := List.exists_cons_of_ne_nil hrest
  have hfinish : (one frontEnd.rulebook .finish).spurns (c :: rest) :=
    fun p => ⟨_, .finishRefused rfl⟩
  apply spurns_call rfl
  apply Peg.Scanner.spurns_sequence
  exact Peg.Scanner.spurns_cons_of_eats hgap (Peg.Scanner.spurns_cons hfinish)

end Lexical

/-! ## Reading to the end -/

/-- The tokens at some places, as nodes. -/
def nodesOf (xs : List (Place Node)) : List Node :=
  (xs.filterMap tokenAt?).map fun t => .token t.token

/-- The last place of the tokens of a source, whose text is read up to `rest`. -/
inductive StopsAt : List Char → Place Node → Prop where
  | finish {p} : StopsAt [] (.finish p)
  | stalled {rest p stall} : rest ≠ [] → StopsAt rest (.stalled p stall)

variable {below : Source Node} {p : Position} {cs : List Char}

/-- **Both ways of reading a text** read the same tokens and stop at the same place: behind a gap
that no lexeme follows. -/
theorem exists_readings (hbelow : Reads frontEnd.rulebook below (.ok (charPlace p cs)))
    (index : Nat) :
    ∃ xs x text w rest v, cs = text ++ (w ++ rest) ∧
      Walks frontEnd.rulebook (.derived below (some (call "_")) (call "lexeme") index) xs ∧
      xs.getLast? = some x ∧ StopsAt rest x ∧
      EatsMany frontEnd.rulebook (call "token") text (w ++ rest) (nodesOf xs) ∧
      (one frontEnd.rulebook (call "_")).eats w rest v := by
  -- every token takes at least one character off the text
  induction hn : cs.length using Nat.strongRecOn generalizing p cs below index with
  | ind n ih =>
    obtain ⟨w, cs, v, -, rfl, hgap, -⟩ := Lexical.exists_skips cs
    have heats := hgap cs (List.prefix_refl cs)
    rcases Lexical.exists_lexeme cs with ⟨l, rest, t, rfl, hl, hlexeme⟩ | ⟨hspurns, -⟩
    · have hlexeme := hlexeme rest (List.prefix_refl rest)
      have hread := reads_lexeme hbelow heats hl hlexeme index
      have hlength := List.length_pos_iff.mpr hl
      simp only [List.length_append] at hn
      have hnext : Reads frontEnd.rulebook (.fixed (charPlace ((p.behind w).behind l) rest))
          (.ok (charPlace ((p.behind w).behind l) rest)) := Peg.reads_iff.mpr .fixed
      obtain ⟨xs, x, text, w', rest, v', rfl, hwalks, hlast, hstops, hmany, hgap'⟩ :=
        ih rest.length (by omega) hnext (index + 1) rfl
      refine ⟨_ :: xs, x, (w ++ l) ++ text, w', rest, v', ?_, .next hread hwalks, ?_, hstops, ?_,
        hgap'⟩
      · simp only [List.append_assoc]
      · rw [List.getLast?_cons, hlast]
        rfl
      · apply Peg.Scanner.eatsMany_cons (Lexical.eats_token heats hlexeme) _ hmany
        simp [hl]
    · obtain ⟨r, hread⟩ := exists_reads_endAt hbelow heats hspurns index
      have hend := Place.token?_endAt (charPlace (p.behind w) cs) index r
      refine ⟨[_], _, [], w, cs, v, rfl, .stop hread hend, rfl, ?_, ?_, heats⟩
      · rcases cs with _ | ⟨c, cs⟩
        · exact .finish
        · exact .stalled (List.cons_ne_nil c cs)
      · rw [nodesOf, List.filterMap_cons_none (tokenAt?_eq_none hend)]
        exact Peg.Scanner.eatsMany_nil (Lexical.spurns_token heats hspurns)

/-! ## Agreement -/

/-- A parse of a text succeeds with what is read off it. -/
theorem textParse_of_eats {q : Peg.Pattern Node} {l rest : List Char} {v : Node}
    (h : (one frontEnd.rulebook q).eats l rest v) :
    Terminates (fun fuel =>
        Peg.parse fuel none q (.ofString (String.ofList (l ++ rest))) frontEnd) fun r =>
      ∃ s, r.1 = .ok s ∧ s.start.offset = 0 ∧ s.stop.offset = l.length ∧ s.value = v ∧
        s.stop.isEnd = rest.isEmpty := by
  apply (textParse_finds (h .start)).imp
  rintro ⟨_, w'⟩ ⟨chart, hsays⟩
  generalize hf : Verdict.finding _ _ = finding at hsays
  rcases hsays with @⟨start, stop, x, y, u, hstart, hstop⟩ | _ | _ | _
  · cases hf
    refine ⟨_, rfl, ?_, ?_, rfl, ?_⟩
    · show start.offset = 0
      rw [← Peg.Cursor.offset_of_place? hstart, Place.offset, Peg.position_charPlace]
      rfl
    · show stop.offset = l.length
      rw [← Peg.Cursor.offset_of_place? hstop, Place.offset, Peg.position_charPlace,
        Position.offset_behind]
      exact Nat.zero_add _
    · show stop.isEnd = rest.isEmpty
      rw [Peg.Cursor.isEnd_eq, ← Peg.Cursor.token?_of_place? hstop, Peg.token?_charPlace]
      cases rest <;> rfl
  all_goals cases hf

/-- The outcome of the rule `tokens` and the result of tokenizing agree: both read the whole source,
as the same tokens in the same order, or both fail. -/
inductive ReadsAlike (source : String) :
    Peg.Outcome Node → Except LexError (List PlacedToken) → Prop where
  | ok {s ts} : s.start.offset = 0 → s.stop.offset = source.toList.length → s.stop.isEnd = true →
      s.value = .list (ts.map fun t => .token t.token) → ReadsAlike source (.ok s) (.ok ts)
  | error {f e} : ReadsAlike source (.error (.failed f)) (.error e)

/-- **The two ways of reading a source agree.** For every source, matching the rule `tokens` and
tokenizing both come to a result. The match succeeds if and only if tokenizing does. It then
consumes the whole source, and its value is the list of the tokens, in their order. -/
theorem tokens_rule_agrees (source : String) :
    ∃ outcome lexed,
      Terminates (fun fuel => Peg.parse fuel none (call "tokens") (.ofString source) frontEnd)
        (·.1 = outcome) ∧
      Terminates (fun fuel => tokenize fuel none source) (· = lexed) ∧
      ReadsAlike source outcome lexed := by
  have hbelow : Reads frontEnd.rulebook (.chars source.toList .start)
      (.ok (charPlace .start source.toList)) := Peg.reads_iff.mpr .chars
  obtain ⟨xs, x, text, w, rest, v, hsource, hwalks, hlast, hstops, hmany, hgap⟩ :=
    exists_readings hbelow 0
  obtain ⟨lexed, hlexes, hlexed⟩ := tokenize_of_getLast? hwalks hlast
  have hmany : (one frontEnd.rulebook (.zeroOrMore (call "token"))).eats text (w ++ rest) _ :=
    Peg.Scanner.eats_zeroOrMore hmany
  rcases hstops with @⟨p⟩ | @⟨rest, p, stall, hrest⟩
  · -- nothing is left behind the last gap
    have hitems : (all frontEnd.rulebook [.zeroOrMore (call "token"), call "EOF"]).eats
        (text ++ (w ++ [])) [] [MatchValue.list (nodesOf xs), .nothing] :=
      Peg.Scanner.eats_cons (by simpa using hmany)
        (Peg.Scanner.eats_cons (by simpa using Lexical.eats_end hgap) Peg.Scanner.eats_nil)
    have htokens : (one frontEnd.rulebook (call "tokens")).eats source.toList []
        (.list (nodesOf xs)) := by
      rw [hsource]
      exact Lexical.eats_call rfl rfl rfl fun p => .sequence (hitems [] p)
    obtain ⟨⟨_, w'⟩, ⟨s, rfl, hstart, hstop, hvalue, hend⟩, hparse⟩ := textParse_of_eats htokens
    rw [List.append_nil, String.ofList_toList] at hparse
    rcases hlexes
    exact ⟨_, _, ⟨_, rfl, hparse⟩, ⟨_, rfl, hlexed⟩, .ok hstart hstop hend hvalue⟩
  · -- the end is refused behind the last token, and with it the whole match
    have hitems : (all frontEnd.rulebook [.zeroOrMore (call "token"), call "EOF"]).spurns
        (text ++ (w ++ rest)) :=
      Peg.Scanner.spurns_cons_of_eats hmany (Peg.Scanner.spurns_cons (Lexical.spurns_end hgap hrest))
    have htokens : (one frontEnd.rulebook (call "tokens")).spurns source.toList := by
      rw [hsource]
      apply Lexical.spurns_call rfl
      intro p
      obtain ⟨r, hr⟩ := hitems [] p
      exact ⟨r, .sequence hr⟩
    obtain ⟨⟨_, w'⟩, ⟨f, rfl⟩, hparse⟩ := refusesText_of_spurns htokens
    rw [String.ofList_toList] at hparse
    rcases hlexes
    exact ⟨_, _, ⟨_, rfl, hparse⟩, ⟨_, rfl, hlexed⟩, .error⟩

end Humus

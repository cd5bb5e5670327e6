import Humus.Proofs.Peg.Scanning
import Humus.Proofs.Tree.Totality

/-!
# Lexemes

What the token grammar reads off a text. A lexeme reads the same from its text alone as it does
within a longer one: the characters that decide where it ends, and which alternative it is, are its
own or are gone with what follows.

## Main definitions

* `Scannable p`: the pattern takes something off some texts, also when they are cut, and refuses the
  others
* `lexemes`: the alternatives of a lexeme

## Main results

* `exists_derives_call`: over a text a rule matches, with a value of its shape, or is refused
* `scannable_lexeme`: lexemes are scannable
* `exists_skips`: what stands in front of a lexeme
-/

namespace Humus.Lexical

open Peg (Derives Pattern Place Settles Tape Verdict charPlace lazyTape)
open Peg.Scanner

/-! ## Rules -/

/-- **Over a text a rule matches**, with a value of its shape, or is refused. -/
theorem exists_derives_call {name : String} (hname : name ∈ rules.map Prod.fst) (p : Position)
    (cs : List Char) :
    ∃ o, Derives (lazyTape frontEnd.rulebook) frontEnd.rulebook (.whole (call name))
      (charPlace p cs) o ∧ o.Satisfies (shape name) := by
  have hwalks := Peg.walks_chars p cs frontEnd.rulebook
  have hchars : ∀ v ∈ (Peg.charPlaces p cs).filterMap Place.token?, IsChar v := by
    rw [Peg.filterMap_charPlaces]
    intro v hv
    obtain ⟨c, -, rfl⟩ := List.mem_map.mp hv
    exact ⟨c, rfl⟩
  have hsettles : Settles (Tape.ofPlaces (Peg.charPlaces p cs)) frontEnd.rulebook (call name)
      (shape name) := total_lexical.settles hchars _ rfl ⟨rfl, hname⟩
  obtain ⟨x, hx, hreads⟩ := hwalks.exists_head
  obtain rfl : x = charPlace p cs := Except.ok.inj ((Peg.reads_iff.mpr .chars).unique hreads)
  obtain ⟨o, ho, hsat, -⟩ := hsettles 0
  obtain ⟨o', ho', hrel⟩ := hwalks.derives_of_places hx ho
  refine ⟨o', ho', ?_⟩
  cases hrel with
  | matched _ => exact hsat
  | refused _ => trivial
  | broken => exact hsat.elim

variable {name : String} {body : Pattern Node} {O L : List Char → Prop}

theorem rulebook_call (hbody : rules.lookup name = some body) :
    frontEnd.rulebook ⟨grammarId, name⟩ =
      .ok (body, (reductions.lookup name).map fun reduce rule n _ => reduce rule n) := by
  have hgrammar : frontEnd.grammar? grammarId = some (reducedGrammar rules reductions) := rfl
  exact rulebook_reducedGrammar hgrammar hbody

theorem mem_of_lookup (hbody : rules.lookup name = some body) : name ∈ rules.map Prod.fst := by
  obtain ⟨l₁, l₂, hl, -⟩ := List.lookup_eq_some_iff.mp hbody
  rw [hl, List.map_append, List.map_cons]
  exact List.mem_append_right _ List.mem_cons_self

/-- What a reduction makes of a value does not depend on the text around it. -/
theorem exists_eats_call (hbody : rules.lookup name = some body) (v : Node) :
    ∃ u, ∀ l rest, (one frontEnd.rulebook body).eats l rest v →
      (one frontEnd.rulebook (call name)).eats l rest u := by
  have hR := rulebook_call hbody
  cases hreduction : reductions.lookup name with
  | none =>
    rw [hreduction] at hR
    exact ⟨v, fun l rest hv p => .rule hR (hv p)⟩
  | some reduce =>
    rw [hreduction] at hR
    cases hu : reduce name v with
    | ok u =>
      refine ⟨u, fun l rest hv p => ?_⟩
      have hrule := Derives.rule hR (hv p)
      simp only [Tape.reduce, Option.map_some, hu] at hrule
      exact hrule
    | error e =>
      -- a reduction never refuses what its rule has matched
      refine ⟨v, fun l rest hv p => ?_⟩
      have hrule := Derives.rule hR (hv p)
      simp only [Tape.reduce, Option.map_some, hu] at hrule
      obtain ⟨o, ho, hsat⟩ := exists_derives_call (mem_of_lookup hbody) p (l ++ rest)
      rw [hrule.unique ho] at hsat
      exact hsat.elim

theorem scans_call (hbody : rules.lookup name = some body)
    (h : (one frontEnd.rulebook body).Scans O) : (one frontEnd.rulebook (call name)).Scans O :=
  h.rule (rulebook_call hbody) (exists_eats_call hbody)

theorem words_call (hbody : rules.lookup name = some body)
    (h : (one frontEnd.rulebook body).Words L) : (one frontEnd.rulebook (call name)).Words L :=
  h.rule (rulebook_call hbody) (exists_eats_call hbody)

/-! ## Characters -/

theorem words_char (c : Char) : (one frontEnd.rulebook (char c)).Words (OneOf (· == c)) := by
  refine (words_terminal (Node.char c)).iff fun l => ?_
  have htest : ∀ d : Char, (decide (Peg.MatchValue.ofChar d = Node.char c)) = (d == c) := by
    intro d
    show decide (Node.char d = Node.char c) = _
    simp [beq_eq_decide]
  simp only [htest]

theorem words_charClass (label : String) (test : Char → Bool) :
    (one frontEnd.rulebook (charClass label test)).Words (OneOf test) :=
  words_predicate label _

/-- Where the words of some patterns are apart from those of no pattern. -/
theorem apart_none (L : List Char → Prop) : ∀ a b, L a → False → Apart a b :=
  fun _ _ _ => False.elim

theorem words_endOfLine :
    (one frontEnd.rulebook (call "EOL")).Words (OneOf fun c => c == '\n' || c == '\r') := by
  have happart : ∀ a b, OneOf (· == '\n') a → OneOf (· == '\r') b ∨ False → Apart a b := by
    rintro _ _ ⟨c, rfl, hc⟩ (⟨d, rfl, hd⟩ | hb)
    · rw [beq_iff_eq.mp hc, beq_iff_eq.mp hd]
      exact apart_cons (by decide) [] []
    · exact hb.elim
  have hbody := ((words_char '\n').or ((words_char '\r').or Words.any_nil (apart_none _))
    happart).choice
  refine words_call rfl (hbody.iff fun l => ?_)
  constructor
  · rintro (⟨c, rfl, hc⟩ | ⟨c, rfl, hc⟩ | hl)
    · exact ⟨c, rfl, Bool.or_eq_true_iff.mpr (.inl hc)⟩
    · exact ⟨c, rfl, Bool.or_eq_true_iff.mpr (.inr hc)⟩
    · exact hl.elim
  · rintro ⟨c, rfl, hc⟩
    rcases Bool.or_eq_true_iff.mp hc with hc | hc
    · exact .inl ⟨c, rfl, hc⟩
    · exact .inr (.inl ⟨c, rfl, hc⟩)

/-! ## Quoted characters -/

theorem words_escape : (one frontEnd.rulebook (.sequence [char '\\',
      charClass "escape character" escapeChars.contains])).Words
    fun l => ∃ c, l = ['\\', c] ∧ escapeChars.contains c = true := by
  refine ((words_char '\\').cons ((words_charClass "escape character" _).cons .nil)).sequence.iff
    fun l => ?_
  constructor
  · rintro ⟨_, _, rfl, ⟨c, rfl, hc⟩, _, _, rfl, ⟨d, rfl, hd⟩, rfl⟩
    exact ⟨d, by rw [beq_iff_eq.mp hc]; rfl, hd⟩
  · rintro ⟨d, rfl, hd⟩
    exact ⟨['\\'], [d], rfl, ⟨_, rfl, rfl⟩, [d], [], rfl, ⟨d, rfl, hd⟩, rfl⟩

theorem words_unicode : (one frontEnd.rulebook (.sequence [char '\\', char 'u', hexDigit, hexDigit,
      hexDigit, hexDigit])).Words
    fun l => ∃ ds, l = '\\' :: 'u' :: ds ∧ ds.length = 4 ∧ ∀ d ∈ ds, isHexDigit d = true := by
  have hhex : (one frontEnd.rulebook hexDigit).Words (OneOf isHexDigit) :=
    words_charClass "hex digit" isHexDigit
  refine ((words_char '\\').cons ((words_char 'u').cons
    (hhex.cons (hhex.cons (hhex.cons (hhex.cons .nil)))))).sequence.iff fun l => ?_
  constructor
  · rintro ⟨_, _, rfl, ⟨c, rfl, hc⟩, _, _, rfl, ⟨u, rfl, hu⟩, _, _, rfl, ⟨d₁, rfl, h₁⟩, _, _, rfl,
      ⟨d₂, rfl, h₂⟩, _, _, rfl, ⟨d₃, rfl, h₃⟩, _, _, rfl, ⟨d₄, rfl, h₄⟩, rfl⟩
    rw [beq_iff_eq.mp hc, beq_iff_eq.mp hu]
    exact ⟨[d₁, d₂, d₃, d₄], rfl, rfl, by simp [h₁, h₂, h₃, h₄]⟩
  · rintro ⟨ds, rfl, hlength, hds⟩
    obtain ⟨d₁, d₂, d₃, d₄, rfl⟩ : ∃ d₁ d₂ d₃ d₄, ds = [d₁, d₂, d₃, d₄] := by
      match ds, hlength with
      | [d₁, d₂, d₃, d₄], _ => exact ⟨d₁, d₂, d₃, d₄, rfl⟩
    have hdigit : ∀ d ∈ [d₁, d₂, d₃, d₄], OneOf isHexDigit [d] := fun d hd => ⟨d, rfl, hds d hd⟩
    simp only [List.forall_mem_cons] at hdigit
    obtain ⟨h₁, h₂, h₃, h₄, -⟩ := hdigit
    exact ⟨['\\'], _, rfl, ⟨_, rfl, rfl⟩, ['u'], _, rfl, ⟨_, rfl, rfl⟩, [d₁], _, rfl, h₁, [d₂], _, rfl,
      h₂, [d₃], _, rfl, h₃, [d₄], _, rfl, h₄, rfl⟩

theorem words_plain : (one frontEnd.rulebook (.sequence [.not (char '\\'), .any])).Words
    fun l => ∃ c, l = [c] ∧ c ≠ '\\' := by
  refine ((words_char '\\').not_cons (words_any.cons .nil) ?_).sequence.iff fun l => ?_
  · rintro _ ⟨_, _, rfl, ⟨c, rfl, -⟩, -⟩
    exact List.cons_ne_nil _ _
  constructor
  · rintro ⟨⟨_, _, rfl, ⟨c, rfl, -⟩, rfl⟩, hc⟩
    exact ⟨c, rfl, beq_eq_false_iff_ne.mp hc⟩
  · rintro ⟨c, rfl, hc⟩
    exact ⟨⟨[c], [], rfl, ⟨c, rfl, rfl⟩, rfl⟩, beq_eq_false_iff_ne.mpr hc⟩

/-- A quoted character is told from the others by its first two characters. -/
theorem words_quotedChar : ∃ L, (one frontEnd.rulebook (call "qchar")).Words L ∧ ∀ l, L l → l ≠ [] := by
  have hunicode := words_unicode.or (words_plain.or Words.any_nil (apart_none _)) (by
    rintro _ _ ⟨ds, rfl, -⟩ (⟨c, rfl, hc⟩ | h)
    · exact apart_cons hc.symm _ []
    · exact h.elim)
  have hbody := words_escape.or hunicode (by
    rintro _ _ ⟨c, rfl, hc⟩ (⟨ds, rfl, -⟩ | ⟨d, rfl, hd⟩ | h)
    · refine (apart_cons ?_ [] ds).cons '\\'
      rintro rfl
      exact absurd hc (by decide)
    · exact apart_cons hd.symm _ []
    · exact h.elim)
  refine ⟨_, words_call rfl hbody.choice, ?_⟩
  rintro _ (⟨c, rfl, -⟩ | ⟨ds, rfl, -⟩ | ⟨c, rfl, -⟩ | h)
  · exact List.cons_ne_nil _ _
  · exact List.cons_ne_nil _ _
  · exact List.cons_ne_nil _ _
  · exact h.elim

/-! ## Scannable patterns -/

/-- The pattern takes something off some texts, also when they are cut, and refuses the others. -/
def Scannable (p : Pattern Node) : Prop :=
  ∃ O, (one frontEnd.rulebook p).Scans O ∧ ¬ O []

theorem scannable_of_words {p : Pattern Node} (h : (one frontEnd.rulebook p).Words L)
    (hL : ∀ l, L l → l ≠ []) : Scannable p :=
  ⟨_, h.scans, not_begins_nil hL⟩

theorem scannable_charClass (label : String) (test : Char → Bool) :
    Scannable (charClass label test) :=
  scannable_of_words (words_charClass label test) fun _ h => h.ne_nil

/-- A rule is scannable if its body is. -/
theorem Scannable.call (h : Scannable body) (hbody : rules.lookup name = some body) :
    Scannable (call name) := by
  obtain ⟨O, hO, hnil⟩ := h
  exact ⟨O, scans_call hbody hO, hnil⟩

theorem Scannable.oneOrMore {p : Pattern Node} (h : Scannable p) : Scannable (.oneOrMore p) := by
  obtain ⟨O, hO, hnil⟩ := h
  exact ⟨O, hO.oneOrMore hnil, hnil⟩

/-- Alternatives are scannable together, and what they refuse each of them refuses. -/
theorem exists_scans_any {ps : List (Pattern Node)} (h : ∀ p ∈ ps, Scannable p) :
    ∃ O, (any frontEnd.rulebook ps).Scans O ∧ ¬ O [] ∧
      ∀ cs, ¬ O cs → ∀ p ∈ ps, (one frontEnd.rulebook p).spurns cs := by
  induction ps with
  | nil =>
    refine ⟨_, Words.any_nil.scans, ?_, fun _ _ p hp => absurd hp List.not_mem_nil⟩
    exact not_begins_nil fun _ h => h.elim
  | cons p ps ih =>
    obtain ⟨⟨O, hO, hnil⟩, hps⟩ := List.forall_mem_cons.mp h
    obtain ⟨O', hO', hnil', hall⟩ := ih hps
    refine ⟨_, hO.or hO', not_or.mpr ⟨hnil, hnil'⟩, fun cs hcs => ?_⟩
    obtain ⟨hp, hrest⟩ := not_or.mp hcs
    exact List.forall_mem_cons.mpr ⟨hO.spurns hp, hall cs hrest⟩

theorem Scannable.choice {ps : List (Pattern Node)} (h : ∀ p ∈ ps, Scannable p) :
    Scannable (.choice ps) := by
  obtain ⟨O, hO, hnil, -⟩ := exists_scans_any h
  exact ⟨O, hO.choice, hnil⟩

/-! ## Lexemes -/

theorem scannable_punct : Scannable (call "punct") :=
  (scannable_charClass "punctuation" punctChars.contains).call rfl

theorem scannable_name : Scannable (call "name") :=
  (scannable_charClass "name character" isNameChar).oneOrMore.call rfl

theorem scannable_ident : Scannable (call "ident") :=
  scannable_name.call rfl

theorem scannable_symbol : Scannable (call "symbol") := by
  have hname : Scannable (.choice [call "punct", call "name"]) := by
    refine .choice (List.forall_mem_cons.mpr ⟨scannable_punct, ?_⟩)
    exact List.forall_mem_singleton.mpr scannable_name
  obtain ⟨O, hO, -⟩ := hname
  refine Scannable.call ⟨_, (Scans.words_cons (words_char '#') hO.single).sequence, ?_⟩ rfl
  rintro ⟨_, rest, heq, ⟨c, rfl, -⟩, -⟩
  cases heq

theorem scannable_number : Scannable (call "number") := by
  have hdigits : Scannable (.oneOrMore (charClass "digit" Char.isDigit)) :=
    (scannable_charClass "digit" Char.isDigit).oneOrMore
  obtain ⟨O, hO, -⟩ := (scannable_charClass "digit or letter" Char.isAlphanum).oneOrMore
  have hradix := (Scans.words_cons (words_char '#') hO.single).sequence.optional.single
  have hdigit := (words_charClass "digit" Char.isDigit).scans
  have hnil : ¬ Begins (OneOf Char.isDigit) [] := not_begins_nil fun _ h => h.ne_nil
  -- a digit is no sign
  have hsign : ∀ cs, Begins (OneOf Char.isDigit) cs → ¬ Begins (OneOf (· == '-')) cs := by
    rintro _ ⟨_, rest, rfl, c, rfl, hc⟩
    refine not_begins_oneOf ?_
    show (c == '-') = false
    refine beq_eq_false_iff_ne.mpr ?_
    rintro rfl
    exact absurd hc (by decide)
  have hnumber := Scans.optional_cons (words_char '-') ((hdigit.oneOrMore hnil).cons_true hradix) hsign
  refine Scannable.call ⟨_, hnumber.sequence, ?_⟩ rfl
  rintro (⟨_, rest, heq, ⟨c, rfl, -⟩, -⟩ | h)
  · cases heq
  · exact hnil h

/-- A quoted character that is not the quotation mark itself. -/
theorem words_quoted (q : Char) : ∃ L,
    (one frontEnd.rulebook (.sequence [.not (char q), call "qchar"])).Words L ∧
      ∀ l, L l → l ≠ [] ∧ l.head?.any (· == q) = false := by
  obtain ⟨L, hL, hne⟩ := words_quotedChar
  have hne' : ∀ l, (∃ a b, l = a ++ b ∧ L a ∧ b = []) → l ≠ [] := by
    rintro _ ⟨a, _, rfl, ha, rfl⟩
    rw [List.append_nil]
    exact hne a ha
  refine ⟨_, ((words_char q).not_cons (hL.cons .nil) hne').sequence, ?_⟩
  rintro l ⟨hl, hq⟩
  exact ⟨hne' l hl, hq⟩

theorem scannable_char : Scannable (call "char") := by
  obtain ⟨L, hL, -⟩ := words_quoted '\''
  refine Scannable.call (scannable_of_words
    ((words_char '\'').cons (hL.cons ((words_char '\'').cons .nil))).sequence ?_) rfl
  rintro _ ⟨_, _, rfl, ⟨c, rfl, -⟩, -⟩
  exact List.cons_ne_nil _ _

theorem scannable_string : Scannable (call "string") := by
  obtain ⟨L, hL, hne⟩ := words_quoted '"'
  refine Scannable.call (scannable_of_words
    ((words_char '"').cons (hL.until (words_char '"') hne)).sequence ?_) rfl
  rintro _ ⟨_, _, rfl, ⟨c, rfl, -⟩, -⟩
  exact List.cons_ne_nil _ _

/-- The alternatives of a lexeme. -/
def lexemes : List String := ["symbol", "number", "char", "string", "ident", "punct"]

theorem scannable_lexemes : ∀ p ∈ lexemes.map call, Scannable p := by
  simp only [lexemes, List.map_cons, List.map_nil, List.forall_mem_cons]
  exact ⟨scannable_symbol, scannable_number, scannable_char, scannable_string, scannable_ident,
    scannable_punct, fun _ h => absurd h List.not_mem_nil⟩

/-- **A lexeme is read off a text**, and read the same when the text is cut behind it, or it is
refused with all its alternatives. -/
theorem exists_lexeme (cs : List Char) :
    (∃ l rest t, cs = l ++ rest ∧ l ≠ [] ∧
      (one frontEnd.rulebook (call "lexeme")).Takes l rest (.token t)) ∨
    (one frontEnd.rulebook (call "lexeme")).spurns cs ∧
      ∀ name ∈ lexemes, (one frontEnd.rulebook (call name)).spurns cs := by
  obtain ⟨O, hO, hnil, hall⟩ := exists_scans_any scannable_lexemes
  have hbody : rules.lookup "lexeme" = some (.choice (lexemes.map call)) := rfl
  have hlexeme := scans_call hbody hO.choice
  by_cases hcs : O cs
  · obtain ⟨l, rest, n, rfl, hn⟩ := hlexeme.takes hcs
    -- what a lexeme is reduced to is a token
    obtain ⟨o, ho, hsat⟩ := exists_derives_call (mem_of_lookup hbody) .start (l ++ rest)
    have heats := hn rest (List.prefix_refl rest) .start
    rw [← ho.unique heats] at hsat
    obtain ⟨t, rfl⟩ := hsat
    exact .inl ⟨l, rest, t, rfl, hlexeme.ne_nil hnil hn, hn⟩
  · refine .inr ⟨hlexeme.spurns hcs, fun name hname => ?_⟩
    exact hall cs hcs _ (List.mem_map_of_mem hname)

/-! ## Between lexemes -/

theorem scannable_space : Scannable (call "space") :=
  (scannable_charClass "whitespace" Text.isBlank).call rfl

theorem scannable_comment : Scannable (call "comment") := by
  have hchar : ∀ l, (∃ a b, l = a ++ b ∧ OneOf (fun _ => true) a ∧ b = []) → l ≠ [] := by
    rintro _ ⟨_, _, rfl, ⟨c, rfl, -⟩, -⟩
    exact List.cons_ne_nil _ _
  have hline := (words_endOfLine.not_cons (words_any.cons .nil) hchar).sequence
  have hrest := (hline.scans.zeroOrMore (not_begins_nil fun l hl => hchar l hl.1)).single
  have hblank := words_charClass "space or tab" fun c => c == ' ' || c == '\t'
  refine Scannable.call
    ⟨_, (Scans.words_cons (words_char '#') (Scans.words_cons hblank hrest)).sequence, ?_⟩ rfl
  rintro ⟨_, rest, heq, ⟨c, rfl, -⟩, -⟩
  cases heq

/-- **What stands in front of a lexeme is stepped over**, also when the text is cut behind it, and
nothing more can be stepped over there. -/
theorem exists_skips (cs : List Char) :
    ∃ w rest v v', cs = w ++ rest ∧ (one frontEnd.rulebook (call "_")).Takes w rest v ∧
      (one frontEnd.rulebook (call "_")).Takes [] rest v' := by
  have hitem : Scannable (.choice [call "comment", call "space"]) := by
    refine .choice (List.forall_mem_cons.mpr ⟨scannable_comment, ?_⟩)
    exact List.forall_mem_singleton.mpr scannable_space
  obtain ⟨O, hO, hnil⟩ := hitem
  obtain ⟨w, rest, vs, rfl, hvs, hrest, -⟩ := hO.exists_many hnil cs
  have hbody : rules.lookup "_" = some (.zeroOrMore (.choice [call "comment", call "space"])) := rfl
  have hcall := exists_eats_call hbody
  obtain ⟨v, hv⟩ := hcall (.list vs)
  obtain ⟨v', hv'⟩ := hcall (.list [])
  refine ⟨w, rest, v, v', rfl, fun rest' hrest' => ?_, fun rest' hrest' => ?_⟩
  · exact hv w rest' (eats_zeroOrMore (hvs rest' hrest'))
  · exact hv' [] rest' (eats_zeroOrMore (eatsMany_nil (hO.refuses hrest _ hrest')))

end Humus.Lexical

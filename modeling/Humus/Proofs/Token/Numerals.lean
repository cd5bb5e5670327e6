import Humus.Proofs.Peg.Choices
import Humus.Proofs.Token.Spelling
import Mathlib.Data.List.TakeWhile

/-!
# Numerals

A number is written in a source with a sign or without, in decimal digits, or in letters and digits
behind a radix. Its token keeps the sign, the radix and the digits, and is written with them again.
That text is read back as the same number, unless the radix ten was written out in the source and
stands before digits that are not decimal: it is left out of the text, and the digits alone are read
as something else.

## Main definitions

* `Lexical.Run test cs`: the text is made of characters of a class, at least one
* `Lexical.Numeral l n`: the text `l` is a numeral of the number `n`

## Main results

* `Lexical.exists_number`: the rule of numbers reads numerals, and refuses all else
* `IsLexeme.exists_numeral`: a text that is read as a number holds a numeral of it
* `Lexical.Numeral.isLexeme`: a numeral of a number is read as that number
* `numbers_read_back`: which numbers of a source are read back from their texts
-/

namespace Humus

open Dispatch (Terminates)
open Lexical (call)
open Peg (Place Reads Verdict Walks charPlace)
open Peg.Scanner

namespace Lexical

/-! ## Numerals -/

/-- The text is made of characters of a class, at least one. -/
structure Run (test : Char → Bool) (cs : List Char) : Prop where
  ne_nil : cs ≠ []
  all : ∀ c ∈ cs, test c = true

/-- The signs of numbers. -/
def signs : List (Option Char) := [none, some '-']

theorem mem_signs {sign : Option Char} : sign ∈ signs ↔ sign = none ∨ sign = some '-' := by
  simp [signs]

/-- The text is a numeral of the number. -/
inductive Numeral : List Char → Number → Prop where
  /-- Decimal digits. -/
  | plain {sign ds} : sign ∈ signs → Run Char.isDigit ds →
      Numeral (sign.toList ++ ds) ⟨sign, 10, String.ofList ds⟩
  /-- Letters and digits behind a radix, which is written in decimal digits. -/
  | based {sign ds es} : sign ∈ signs → Run Char.isDigit ds → Run Char.isAlphanum es →
      Numeral (sign.toList ++ (ds ++ '#' :: es))
        ⟨sign, radixOf (String.ofList ds), String.ofList es⟩

variable {l rest cs ds es : List Char} {sign : Option Char} {n : Number} {test : Char → Bool}

/-! ## Scanning numerals -/

/-- A text begins with as many characters of a class as it can. -/
theorem exists_span (test : Char → Bool) (cs : List Char) :
    ∃ ds rest, cs = ds ++ rest ∧ (∀ c ∈ ds, test c = true) ∧ rest.head?.any test = false := by
  refine ⟨cs.takeWhile test, cs.dropWhile test, List.takeWhile_append_dropWhile.symm, ?_, ?_⟩
  · exact fun c hc => List.mem_takeWhile_imp hc
  · have hhead := List.head?_dropWhile_not test cs
    cases hrest : cs.dropWhile test with
    | nil => rfl
    | cons c rest =>
      rw [hrest] at hhead
      exact hhead

/-- Characters of a class are read up to one that is not of the class. -/
theorem eatsMany_class (label : String) (hds : ∀ c ∈ ds, test c = true)
    (hrest : rest.head?.any test = false) :
    EatsMany frontEnd.rulebook (charClass label test) ds rest (ds.map .char) := by
  induction ds with
  | nil => exact eatsMany_nil (spurns_of_head (words_charClass label test) hrest)
  | cons c ds ih =>
    obtain ⟨hc, hds⟩ := List.forall_mem_cons.mp hds
    exact eatsMany_cons (l := [c]) (eats_charClass label hc _) (List.cons_ne_nil c []) (ih hds)

theorem eats_run (label : String) (hds : Run test ds) (hrest : rest.head?.any test = false) :
    (one frontEnd.rulebook (.oneOrMore (charClass label test))).eats ds rest
      (.list (ds.map .char)) := by
  apply eats_oneOrMore (eatsMany_class label hds.all hrest)
  simpa using hds.ne_nil

/-- What a number has behind its first digits if they are its radix. -/
def digitsGroup : Peg.Pattern Node :=
  .sequence [char '#', .oneOrMore (charClass "digit or letter" Char.isAlphanum)]

theorem eats_digitsGroup (hes : Run Char.isAlphanum es)
    (hrest : rest.head?.any Char.isAlphanum = false) :
    (one frontEnd.rulebook digitsGroup).eats ('#' :: es) rest
      (.list [.char '#', .list (es.map .char)]) :=
  eats_sequence (eats_cons (eats_char '#' (es ++ rest))
    (eats_single (eats_run "digit or letter" hes hrest)))

/-- Behind a number sign there has to be a letter or a digit. -/
theorem spurns_digitsGroup (hcs : ∀ ds, cs = '#' :: ds → ds.head?.any Char.isAlphanum = false) :
    (one frontEnd.rulebook digitsGroup).spurns cs := by
  by_cases hhead : cs.head?.any (· == '#') = true
  · cases cs with
    | nil => cases hhead
    | cons c cs =>
      obtain rfl : c = '#' := by simpa using hhead
      have hdigit := spurns_of_head (words_charClass "digit or letter" Char.isAlphanum) (hcs cs rfl)
      apply spurns_sequence
      exact spurns_cons_of_eats (l := ['#']) (eats_char '#' cs) (spurns_cons (spurns_oneOrMore hdigit))
  · exact spurns_sequence_of_head (Bool.not_eq_true _ ▸ hhead)

theorem eats_sign (hsign : sign ∈ signs) (hrest : sign = none → rest.head?.any (· == '-') = false) :
    (one frontEnd.rulebook (.optional (char '-'))).eats sign.toList rest
      (.list (sign.toList.map .char)) := by
  rcases mem_signs.mp hsign with rfl | rfl
  · exact eats_optional_of_spurns (spurns_of_head (words_char '-') (hrest rfl))
  · exact eats_optional (eats_char '-' rest)

/-- A digit is no sign. -/
theorem any_head?_sign (hds : Run Char.isDigit ds) (rest : List Char) :
    (ds ++ rest).head?.any (· == '-') = false := by
  obtain ⟨c, ds, rfl⟩ := List.exists_cons_of_ne_nil hds.ne_nil
  have hc := hds.all c List.mem_cons_self
  apply beq_eq_false_iff_ne.mpr
  rintro rfl
  exact absurd hc (by decide)

/-- A number is made of what its sign, its first digits and what stands behind them are read as. -/
theorem eats_number {group : List Char} {v : Node} (hsign : sign ∈ signs)
    (hds : Run Char.isDigit ds) (hstop : (group ++ rest).head?.any Char.isDigit = false)
    (hgroup : (one frontEnd.rulebook (.optional digitsGroup)).eats group rest v)
    (hreduce : reduceNumber "number" (.list [.list (sign.toList.map .char), .list (ds.map .char), v]) =
      .ok (.token (.number n))) :
    (one frontEnd.rulebook (call "number")).eats (sign.toList ++ (ds ++ group)) rest
      (.token (.number n)) := by
  have hleading := eats_cons (eats_run "digit" hds hstop) (eats_single hgroup)
  have hdigit : (ds ++ group ++ rest).head?.any (· == '-') = false := by
    rw [List.append_assoc]
    exact any_head?_sign hds (group ++ rest)
  have hitems := eats_cons (eats_sign hsign fun _ => hdigit) hleading
  exact eats_call rfl rfl hreduce (eats_sequence hitems)

/-- Decimal digits are read as a number, unless they go on or are a radix. -/
theorem eats_plainNumber (hsign : sign ∈ signs) (hds : Run Char.isDigit ds)
    (hrest : rest.head?.any Char.isDigit = false)
    (hgroup : (one frontEnd.rulebook digitsGroup).spurns rest) :
    (one frontEnd.rulebook (call "number")).eats (sign.toList ++ ds) rest
      (.token (.number ⟨sign, 10, String.ofList ds⟩)) := by
  have hreduce : reduceNumber "number" (.list [.list (sign.toList.map .char),
      .list (ds.map .char), .list []]) = .ok (.token (.number ⟨sign, 10, String.ofList ds⟩)) := by
    simp only [reduceNumber, Node.flatten_chars, String.toList_ofList, Option.head?_toList]
  have hnumber : (one frontEnd.rulebook (call "number")).eats (sign.toList ++ (ds ++ [])) rest
      (.token (.number ⟨sign, 10, String.ofList ds⟩)) :=
    eats_number hsign hds hrest (eats_optional_of_spurns hgroup) hreduce
  rwa [List.append_nil] at hnumber

/-- Letters and digits behind a radix are read as a number, unless they go on. -/
theorem eats_basedNumber (hsign : sign ∈ signs) (hds : Run Char.isDigit ds)
    (hes : Run Char.isAlphanum es) (hrest : rest.head?.any Char.isAlphanum = false) :
    (one frontEnd.rulebook (call "number")).eats (sign.toList ++ (ds ++ '#' :: es)) rest
      (.token (.number ⟨sign, radixOf (String.ofList ds), String.ofList es⟩)) := by
  apply eats_number hsign hds (by rfl) (eats_optional (eats_digitsGroup hes hrest))
  show reduceNumber "number" (.list [_, _, .list [.list [_, .list (es.map .char)]]]) = _
  simp only [reduceNumber, Node.flatten_chars, String.toList_ofList, Option.head?_toList]

/-- A text begins with a sign or with none. -/
theorem exists_sign (cs : List Char) : ∃ sign rest, sign ∈ signs ∧ cs = sign.toList ++ rest ∧
    (sign = none → rest.head?.any (· == '-') = false) := by
  by_cases hhead : cs.head?.any (· == '-') = true
  · cases cs with
    | nil => cases hhead
    | cons c rest =>
      obtain rfl : c = '-' := by simpa using hhead
      exact ⟨some '-', rest, by simp [signs], rfl, by simp⟩
  · exact ⟨none, cs, by simp [signs], rfl, fun _ => Bool.not_eq_true _ ▸ hhead⟩

/-- **The rule of numbers reads numerals**, and it is refused where no numeral begins. -/
theorem exists_number (cs : List Char) :
    (∃ l rest n, cs = l ++ rest ∧ Numeral l n ∧
      (one frontEnd.rulebook (call "number")).eats l rest (.token (.number n))) ∨
    (one frontEnd.rulebook (call "number")).spurns cs := by
  -- whatever follows, a sign is taken first and then as many digits as there are
  obtain ⟨sign, cs, hsign, rfl, hnone⟩ := exists_sign cs
  obtain ⟨ds, cs, rfl, hds, hstop⟩ := exists_span Char.isDigit cs
  by_cases hnil : ds = []
  · subst hnil
    right
    apply spurns_call rfl
    apply spurns_sequence
    apply spurns_cons_of_eats (eats_sign hsign hnone)
    exact spurns_cons (spurns_oneOrMore (spurns_of_head (words_charClass "digit" Char.isDigit) hstop))
  · left
    have hds : Run Char.isDigit ds := ⟨hnil, hds⟩
    -- the digits are a radix if a number sign with letters or digits follows
    by_cases hgroup : ∃ e es, cs = '#' :: e :: es ∧ e.isAlphanum = true
    · obtain ⟨e, es, rfl, he⟩ := hgroup
      obtain ⟨es', rest, hspan, hes, hrest⟩ := exists_span Char.isAlphanum (e :: es)
      have hes : Run Char.isAlphanum es' := by
        refine ⟨?_, hes⟩
        rintro rfl
        obtain rfl : e :: es = rest := hspan
        exact absurd he (by simpa using hrest)
      refine ⟨_, rest, _, ?_, .based hsign hds hes, eats_basedNumber hsign hds hes hrest⟩
      simp [hspan]
    · refine ⟨_, cs, _, ?_, .plain hsign hds, eats_plainNumber hsign hds hstop ?_⟩
      · rw [List.append_assoc]
      · apply spurns_digitsGroup
        rintro es rfl
        cases es with
        | nil => rfl
        | cons e es =>
          by_contra he
          exact hgroup ⟨e, es, rfl, by simpa using he⟩

/-! ## Lexemes that are numbers -/

/-- Each alternative of a lexeme has a reduction. -/
theorem exists_reduction {name : String} (hname : name ∈ lexemes) :
    ∃ body reduce, rules.lookup name = some body ∧ reductions.lookup name = some reduce := by
  simp only [lexemes, List.mem_cons, List.not_mem_nil, or_false] at hname
  rcases hname with rfl | rfl | rfl | rfl | rfl | rfl <;> exact ⟨_, _, rfl, rfl⟩

/-- Only the rule of numbers makes numbers. -/
theorem eq_number_of_reduce {name : String} (hname : name ∈ lexemes) {reduce : Reduction}
    (hreduction : reductions.lookup name = some reduce) {v : Node}
    (hv : reduce name v = .ok (.token (.number n))) : name = "number" := by
  simp only [lexemes, List.mem_cons, List.not_mem_nil, or_false] at hname
  rcases hname with rfl | rfl | rfl | rfl | rfl | rfl
  · cases hreduction
    unfold reduceSymbol at hv
    split at hv <;> cases hv
  · rfl
  · cases hreduction
    unfold reduceChar at hv
    split at hv
    · split at hv <;> cases hv
    · cases hv
  · cases hreduction
    unfold reduceString at hv
    split at hv <;> cases hv
  · cases hreduction
    unfold reduceIdent at hv
    split at hv
    · split at hv <;> cases hv
    · cases hv
  · cases hreduction
    unfold reducePunct at hv
    split at hv <;> cases hv

/-- What is read off a text to its rest is what is read off it to the same place. -/
theorem eq_of_charPlace_eq {p : Position} {l' rest' : List Char} (htext : l ++ rest = l' ++ rest')
    (hplace : (charPlace (p.behind l) rest : Place Node) = charPlace (p.behind l') rest') :
    l = l' := by
  have hoffset := congrArg Place.offset hplace
  simp only [Place.offset, Peg.position_charPlace, Position.offset_behind] at hoffset
  exact List.append_inj_left htext (by omega)

/-- A lexeme that is read as a number is a numeral of it. -/
theorem numeral_of_eats
    (h : (one frontEnd.rulebook (call "lexeme")).eats l rest (.token (.number n))) :
    Numeral l n := by
  have hbody : rules.lookup "lexeme" = some (.choice (lexemes.map call)) := rfl
  have hchoice := raw_body_of_rule (w := frontEnd) rfl hbody rfl (h .start)
  obtain ⟨_, hp, hlexeme⟩ := hchoice.exists_alternative
  obtain ⟨name, hname, rfl⟩ := List.mem_map.mp hp
  -- the alternative is the rule of numbers
  obtain ⟨body, reduce, hrule, hreduction⟩ := exists_reduction hname
  obtain ⟨v, -, hv⟩ := exists_body_of_rule (w := frontEnd) rfl hrule hreduction hlexeme
  obtain rfl := eq_number_of_reduce hname hreduction hv
  rcases exists_number (l ++ rest) with ⟨l', rest', m, htext, hm, hnumber⟩ | hspurns
  · have hnumber := hnumber .start
    rw [← htext] at hnumber
    obtain ⟨hplace, hm'⟩ := Verdict.matched.inj (hlexeme.unique hnumber)
    obtain rfl : m = n := by simpa using hm'
    rwa [eq_of_charPlace_eq htext hplace.symm]
  · obtain ⟨r, hr⟩ := hspurns .start
    cases hlexeme.unique hr

end Lexical

open Lexical (Numeral Run signs)

/-! ## Tokens that are numbers -/

variable {l : List Char} {n : Number}

/-- The first token of a text is read off it as a lexeme. -/
theorem tokenize_head (cs : List Char) :
    Terminates (fun fuel => tokenize fuel none (String.ofList cs)) fun r =>
      ∀ ts, r = .ok ts → ∀ placed ∈ ts.head?, ∃ l rest, l <:+: cs ∧
        (one frontEnd.rulebook (call "lexeme")).eats l rest (.token placed.token) := by
  have htext : Reads frontEnd.rulebook (.chars (String.ofList cs).toList .start)
      (.ok (charPlace .start cs)) := by
    rw [String.toList_ofList]
    exact Peg.reads_iff.mpr .chars
  obtain ⟨w, cs, v, -, rfl, hgap, -⟩ := Lexical.exists_skips cs
  have hgap := hgap cs (List.prefix_refl cs)
  rcases Lexical.exists_lexeme cs with ⟨l, rest, t, rfl, hl, hlexeme⟩ | ⟨hspurns, -⟩
  · have hlexeme := hlexeme rest (List.prefix_refl rest)
    -- the other tokens come behind it
    have hbehind : Reads frontEnd.rulebook
        (.fixed (charPlace ((Position.start.behind w).behind l) rest))
        (.ok (charPlace (Position.start.behind (w ++ l)) rest)) := by
      rw [Position.behind_append]
      exact Peg.reads_iff.mpr .fixed
    obtain ⟨xs, x, -, -, -, hwalks, hlast, -⟩ := exists_partition (w ++ l) rest hbehind 1
    have hwalks := Walks.next (reads_lexeme htext hgap hl hlexeme 0) hwalks
    apply (tokenize_of_getLast? hwalks (by rw [List.getLast?_cons, hlast])).imp
    rintro r hlexes ts rfl placed hplaced
    cases hlexes
    cases hplaced
    exact ⟨l, rest, ⟨w, rest, List.append_assoc ..⟩, hlexeme⟩
  · -- there are no tokens
    obtain ⟨r, hread⟩ := exists_reads_endAt htext hgap hspurns 0
    have hend := Place.token?_endAt (charPlace (Position.start.behind w) cs) 0 r
    apply (tokenize_of_getLast? (Walks.stop hread hend) rfl).imp
    rintro r' hlexes ts rfl placed hplaced
    generalize (charPlace (Position.start.behind w) cs).endAt 0 r = x at hlexes
    cases hlexes
    cases hplaced

/-- A text that is read as a number holds a numeral of it. -/
theorem IsLexeme.exists_numeral (h : IsLexeme l (.number n)) : ∃ l', l' <:+: l ∧ Numeral l' n := by
  obtain ⟨r, hhead, rfl⟩ := (tokenize_head l).exists_and h.2
  obtain ⟨l', rest, hwithin, hlexeme⟩ := hhead _ rfl _ rfl
  exact ⟨l', hwithin, Lexical.numeral_of_eats hlexeme⟩

/-- The radix stands between the sign and the digits, if it is not ten. -/
theorem Number.toList_text (n : Number) : n.text.toList = n.sign.toList ++
    ((if n.radix = 10 then [] else Nat.toDigits 10 n.radix ++ ['#']) ++ n.digits.toList) := by
  have hsign : ((n.sign.map Char.toString).getD "").toList = n.sign.toList := by
    cases n.sign <;> simp
  rw [Number.text, String.toList_append, String.toList_append, hsign, List.append_assoc]
  split <;> simp

namespace Lexical

/-! ## Numerals alone -/

theorem Numeral.eats (h : Numeral l n) :
    (one frontEnd.rulebook (call "number")).eats l [] (.token (.number n)) := by
  cases h with
  | plain hsign hds =>
    apply eats_plainNumber hsign hds rfl
    exact spurns_digitsGroup fun _ h => by cases h
  | based hsign hds hes => exact eats_basedNumber hsign hds hes rfl

/-- A numeral begins with a sign or a digit. -/
theorem Numeral.exists_cons (h : Numeral l n) :
    ∃ c cs, l = c :: cs ∧ c ≠ '#' ∧ Text.isBlank c = false := by
  have hdigit : ∀ c : Char, c.isDigit = true → c ≠ '#' ∧ Text.isBlank c = false := by
    intro c hc
    have hrange : 48 ≤ c.toNat ∧ c.toNat ≤ 57 := by
      rw [Char.isDigit, Bool.and_eq_true, decide_eq_true_eq, decide_eq_true_eq] at hc
      exact hc
    constructor
    · rintro rfl
      exact absurd hc (by decide)
    · simp only [Text.isBlank, Bool.or_eq_false_iff, Bool.and_eq_false_iff,
        decide_eq_false_iff_not, beq_eq_false_iff_ne]
      omega
  obtain ⟨sign, ds, rest, hsign, hds, rfl⟩ : ∃ sign ds rest, sign ∈ signs ∧
      Run Char.isDigit ds ∧ l = sign.toList ++ (ds ++ rest) := by
    cases h with
    | plain hsign hds => exact ⟨_, _, [], hsign, hds, by rw [List.append_nil]⟩
    | based hsign hds _ => exact ⟨_, _, _, hsign, hds, rfl⟩
  rcases mem_signs.mp hsign with rfl | rfl
  · obtain ⟨c, ds, rfl⟩ := List.exists_cons_of_ne_nil hds.ne_nil
    exact ⟨c, _, rfl, hdigit c (hds.all c List.mem_cons_self)⟩
  · exact ⟨'-', _, rfl, by decide, by decide⟩

/-- **A numeral of a number is read as that number.** -/
theorem Numeral.isLexeme (h : Numeral l n) : IsLexeme l (.number n) := by
  have heats := h.eats
  obtain ⟨c, cs, rfl, hhash, hblank⟩ := h.exists_cons
  have hsymbol := spurns_symbol hhash cs
  rw [← List.append_nil (c :: cs)] at hsymbol
  apply isLexeme_of_eats hhash hblank
  exact eats_any_of_spurns hsymbol (eats_any heats)

/-! ## Texts of numbers -/

/-- A radix fits 32 bits. -/
theorem radixOf_lt (digits : String) : radixOf digits < UInt32.size := by
  unfold radixOf
  split
  · split
    · assumption
    · decide
  · decide

/-- A radix is denoted by the digits that it is written with. -/
theorem radixOf_toDigits {radix : Nat} (hradix : radix < UInt32.size) :
    radixOf (String.ofList (Nat.toDigits 10 radix)) = radix := by
  obtain ⟨hvalid, hdenoted⟩ := Number.denoted_toDigits (show 1 < 10 by omega) (by omega) radix
  have hmagnitude : Number.magnitude? 10 (Nat.toDigits 10 radix) = some radix := by
    rw [Number.magnitude?_eq_some_iff (by omega)]
    exact ⟨hvalid.ne_nil, hvalid.lt, hdenoted.symm⟩
  simp only [radixOf, String.toList_ofList, hmagnitude, if_pos hradix]

theorem Numeral.sign_mem (h : Numeral l n) : n.sign ∈ signs := by
  cases h <;> assumption

theorem Numeral.radix_lt (h : Numeral l n) : n.radix < UInt32.size := by
  cases h with
  | plain =>
    show 10 < UInt32.size
    decide
  | based => exact radixOf_lt _

theorem Numeral.run_digits (h : Numeral l n) : Run Char.isAlphanum n.digits.toList := by
  cases h with
  | plain _ hds =>
    rw [String.toList_ofList]
    refine ⟨hds.ne_nil, fun c hc => ?_⟩
    rw [Char.isAlphanum, hds.all c hc, Bool.or_true]
  | based _ _ hes => rwa [String.toList_ofList]

/-- The text of a number is a numeral of it, if its digits are decimal where its radix is left out. -/
theorem Numeral.text (h : Numeral l n)
    (hten : n.radix = 10 → ∀ c ∈ n.digits.toList, c.isDigit = true) : Numeral n.text.toList n := by
  have hsign := h.sign_mem
  have hdigits := h.run_digits
  rw [Number.toList_text]
  by_cases hradix : n.radix = 10
  · -- the digits alone are written behind the sign
    have hnumeral := Numeral.plain hsign ⟨hdigits.ne_nil, hten hradix⟩
    rw [String.ofList_toList, ← hradix] at hnumeral
    rwa [if_pos hradix]
  · have hrun : Run Char.isDigit (Nat.toDigits 10 n.radix) :=
      ⟨Nat.toDigits_ne_nil, fun c hc => Nat.isDigit_of_mem_toDigits (by omega) le_rfl hc⟩
    have hnumeral := Numeral.based hsign hrun hdigits
    rw [radixOf_toDigits h.radix_lt, String.ofList_toList] at hnumeral
    rwa [if_neg hradix, List.append_assoc, List.singleton_append]

/-- Where the radix is left out of the text of a number, there is no number sign in it. -/
theorem Numeral.hash_not_mem (h : Numeral l n) (hradix : n.radix = 10) : '#' ∉ n.text.toList := by
  rw [Number.toList_text, if_pos hradix, List.nil_append, List.mem_append]
  rintro (hmem | hmem)
  · rcases mem_signs.mp h.sign_mem with hsign | hsign <;> simp [hsign] at hmem
  · exact absurd (h.run_digits.all _ hmem) (by decide)

/-- If a numeral of a number stands in its text, and the radix is left out there, the digits are
decimal. -/
theorem Numeral.all_isDigit (h : Numeral l n) (hwithin : l <:+: n.text.toList)
    (hradix : n.radix = 10) : ∀ c ∈ n.digits.toList, c.isDigit = true := by
  have hhash := h.hash_not_mem hradix
  cases h with
  | plain _ hds =>
    rw [String.toList_ofList]
    exact hds.all
  | based =>
    -- its number sign would be one of the text
    apply absurd (hwithin.subset _) hhash
    simp

/-- **A number with a numeral is read back from its text** if and only if its digits are decimal or
its radix is not ten. -/
theorem Numeral.read_back_iff (h : Numeral l n) :
    Terminates (fun fuel => tokenize fuel none n.text) (· = .ok [⟨.number n, .start⟩]) ↔
      (n.radix = 10 → ∀ c ∈ n.digits.toList, c.isDigit = true) := by
  constructor
  · -- the numeral that is read need not be the one of `h`, but it stands in the text
    intro hread hradix
    have hlexeme : IsLexeme n.text.toList (.number n) := by
      refine ⟨?_, by rwa [String.ofList_toList]⟩
      simp [Number.toList_text, h.run_digits.ne_nil]
    obtain ⟨l', hwithin, hnumeral⟩ := hlexeme.exists_numeral
    exact hnumeral.all_isDigit hwithin hradix
  · intro hten
    have hlexeme := (h.text hten).isLexeme
    rw [IsLexeme, String.ofList_toList] at hlexeme
    exact hlexeme.2

end Lexical

/-- **Which numbers are read back from their texts.** For every source, and every number among its
tokens: the text of the number is read as one token, which is the same number, with the same sign,
radix, digits and value, if and only if its radix is not ten or all its digits are decimal. -/
theorem numbers_read_back (source : String) :
    Terminates (fun fuel => tokenize fuel none source) fun r =>
      ∀ ts, r = .ok ts → ∀ n p, ⟨.number n, p⟩ ∈ ts →
        (Terminates (fun fuel => tokenize fuel none n.text) (· = .ok [⟨.number n, .start⟩]) ↔
          (n.radix = 10 → ∀ c ∈ n.digits.toList, c.isDigit = true)) := by
  have hbelow : Reads frontEnd.rulebook (.chars source.toList .start)
      (.ok (charPlace (Position.start.behind []) source.toList)) := Peg.reads_iff.mpr .chars
  obtain ⟨xs, x, text, rest, -, hwalks, hlast, hparts, -⟩ := exists_partition [] _ hbelow 0
  apply (tokenize_of_getLast? hwalks hlast).imp
  rintro r hlexes ts rfl n p hmem
  cases hlexes
  -- the number is read off its own text, which holds a numeral of it
  obtain ⟨_, l, _, _, hlexeme, -⟩ := hparts.exists_of_mem hmem
  obtain ⟨l', -, hnumeral⟩ := hlexeme.exists_numeral
  exact hnumeral.read_back_iff

/-- A radix that is written with a leading zero, before digits of both kinds. -/
theorem numbers_read_back_based :
    Terminates (fun fuel => tokenize fuel none "-016#2A")
        (· = .ok [⟨.number ⟨some '-', 16, "2A"⟩, .start⟩]) ∧
      Terminates (fun fuel => tokenize fuel none "-16#2A")
        (· = .ok [⟨.number ⟨some '-', 16, "2A"⟩, .start⟩]) := by
  have hradix : Run Char.isDigit ['0', '1', '6'] := ⟨by decide, List.all_eq_true.mp (by decide)⟩
  have hdigits : Run Char.isAlphanum ['2', 'A'] := ⟨by decide, List.all_eq_true.mp (by decide)⟩
  have hsign : some '-' ∈ signs := by decide
  have hsource := (Numeral.based hsign hradix hdigits).isLexeme.2
  have hback := numbers_read_back "-016#2A"
  obtain ⟨_, hall, rfl⟩ := hback.exists_and hsource
  have hten := (hall _ rfl ⟨some '-', 16, "2A"⟩ .start (by decide)).mpr
  exact ⟨hsource, hten fun hradix => absurd hradix (by decide)⟩

/-- The radix ten is left out of the text of a number, also before digits that are not decimal. Then
the text is not read as the number. -/
theorem radix_ten_not_read_back :
    Terminates (fun fuel => tokenize fuel none "10#2a")
        (· = .ok [⟨.number ⟨none, 10, "2a"⟩, .start⟩]) ∧
      (Number.mk none 10 "2a").text = "2a" ∧
      ¬ Terminates (fun fuel => tokenize fuel none "2a")
        (· = .ok [⟨.number ⟨none, 10, "2a"⟩, .start⟩]) := by
  have hradix : Run Char.isDigit ['1', '0'] := ⟨by decide, List.all_eq_true.mp (by decide)⟩
  have hdigits : Run Char.isAlphanum ['2', 'a'] := ⟨by decide, List.all_eq_true.mp (by decide)⟩
  have hnumeral : Numeral ['1', '0', '#', '2', 'a'] ⟨none, 10, "2a"⟩ :=
    @Numeral.based none _ _ (by decide) hradix hdigits
  refine ⟨hnumeral.isLexeme.2, by decide, ?_⟩
  intro hread
  have hdecimal := hnumeral.read_back_iff.mp hread rfl
  exact absurd (hdecimal 'a' (by decide)) (by decide)

end Humus

import Humus.Proofs.Text.Flattening
import Humus.Proofs.Token.Agreement
import Humus.Proofs.Token.Value
import Mathlib.Data.List.Forall2

/-!
# Spellings in literals

Between quotation marks a character can be written in several ways: as it is, unless it is the mark
or the backslash, as a letter behind a backslash, or as its code point in hexadecimal digits.
Whichever spelling is chosen for each of its characters, a text is read back as one token.

## Main definitions

* `escapes`: the letters behind a backslash, with the characters that they stand for
* `Spells quote c w`: between two marks `quote`, the text `w` is a spelling of `c`

## Main results

* `eats_quotedChar`: a spelling is read as the character that it spells
* `exists_spells`: every character has a spelling
* `literals_decode`: literals are read as what was spelled in them
-/

namespace Humus

open Dispatch (Terminates)
open Lexical (call char)
open Number (Valid denoted digitValue)
open Peg (MatchValue)
open Peg.Scanner

namespace Lexical

/-! ## Spellings -/

/-- The letters that have a meaning behind a backslash, with the characters that they stand for. -/
def escapes : List (Char × Char) :=
  [('n', '\n'), ('r', '\r'), ('t', '\t'), ('\'', '\''), ('"', '"'), ('[', '['), (']', ']'),
    ('\\', '\\')]

/-- Between two marks `quote`, a text is a spelling of a character. -/
inductive Spells (quote : Char) : Char → List Char → Prop where
  /-- A character that is neither the mark nor the backslash stands for itself. -/
  | plain {c} : c ≠ quote → c ≠ '\\' → Spells quote c [c]
  /-- A letter behind a backslash stands for a character. -/
  | escape {letter c} : (letter, c) ∈ escapes → Spells quote c ['\\', letter]
  /-- Four hexadecimal digits of either case denote the code point of a character. -/
  | unicode {d₁ d₂ d₃ d₄ c} : Valid 16 [d₁, d₂, d₃, d₄] → denoted 16 [d₁, d₂, d₃, d₄] = c.toNat →
      Spells quote c ['\\', 'u', d₁, d₂, d₃, d₄]

variable {quote c : Char} {w rest : List Char}

/-- Every character has a spelling between the marks that can be escaped. -/
theorem exists_spells (hquote : (quote, quote) ∈ escapes) (c : Char) : ∃ w, Spells quote c w := by
  by_cases hc : c = quote
  · subst hc
    exact ⟨_, .escape hquote⟩
  · by_cases hc' : c = '\\'
    · have hescape : ('\\', c) ∈ escapes := by
        rw [hc']
        decide
      exact ⟨_, .escape hescape⟩
    · exact ⟨_, .plain hc hc'⟩

/-- No spelling begins with the mark, which would end the literal. -/
theorem Spells.head?_ne (h : Spells quote c w) (hquote : quote ≠ '\\') :
    w.head?.any (· == quote) = false := by
  cases h with
  | plain hc => simpa using hc
  | escape | unicode => simpa using hquote.symm

theorem Spells.ne_nil (h : Spells quote c w) : w ≠ [] := by
  cases h <;> apply List.cons_ne_nil

theorem escapes_eq (h : (quote, c) ∈ escapes) :
    escapeChars.contains quote = true ∧ unescape? quote = some c := by
  have hall : ∀ e ∈ escapes, escapeChars.contains e.1 = true ∧ unescape? e.1 = some e.2 := by
    decide
  exact hall _ h

theorem isHexDigit_of_digitValue (hc : digitValue c < 16) : isHexDigit c = true := by
  -- no digit is beyond the first 128 characters
  by_cases hsmall : c.toNat < 128
  · have hall : ∀ n < 128, digitValue (Char.ofNat n) < 16 → isHexDigit (Char.ofNat n) = true := by
      decide +kernel
    have hdigit := hall c.toNat hsmall
    rw [Char.ofNat_toNat] at hdigit
    exact hdigit hc
  · rw [Number.digitValue_of_le (by omega)] at hc
    omega

/-- Digits that denote the code point of a character stand for it. -/
theorem unicodeEscape?_eq {ds : List Char} (hds : Valid 16 ds) (hc : denoted 16 ds = c.toNat) :
    unicodeEscape? (String.ofList ds) = some c := by
  have hread : Number.magnitude? 16 ds = some c.toNat := by
    rw [Number.magnitude?_eq_some_iff (by omega)]
    exact ⟨hds.ne_nil, hds.lt, hc.symm⟩
  have hvalid : c.toNat.isValidChar := c.valid
  rw [unicodeEscape?, String.toList_ofList, hread, Option.map_some, if_pos hvalid,
    Char.ofNat_toNat]

/-! ## Single characters of a text -/

theorem eats_char (c : Char) (rest : List Char) :
    (one frontEnd.rulebook (char c)).eats [c] rest (.char c) := by
  intro p
  have hc : decide ((MatchValue.ofChar c : Node) = .char c) = true := decide_eq_true rfl
  exact .terminal (Peg.Scanner.eats_token hc rest p)

theorem eats_charClass (label : String) {test : Char → Bool} (hc : test c = true)
    (rest : List Char) :
    (one frontEnd.rulebook (charClass label test)).eats [c] rest (.char c) :=
  fun p => .predicate (Peg.Scanner.eats_token (c := c) hc rest p)

theorem eats_anyChar (c : Char) (rest : List Char) :
    (one frontEnd.rulebook .any).eats [c] rest (Node.char c) :=
  fun p => .any (Peg.Scanner.eats_token rfl rest p)

/-- What reads the characters of a class is refused in front of any other. -/
theorem spurns_of_head {p : Peg.Pattern Node} {test : Char → Bool}
    (h : (one frontEnd.rulebook p).Words (OneOf test)) (hhead : w.head?.any test = false) :
    (one frontEnd.rulebook p).spurns w :=
  h.scans.spurns (Peg.Scanner.not_begins_oneOf hhead)

/-- A sequence that begins with a character is refused in front of any other. -/
theorem spurns_sequence_of_head {d : Char} {ps : List (Peg.Pattern Node)}
    (hhead : w.head?.any (· == d) = false) :
    (one frontEnd.rulebook (.sequence (char d :: ps))).spurns w :=
  spurns_sequence (spurns_cons (spurns_of_head (words_char d) hhead))

/-! ## Quoted characters -/

/-- A character that stands for itself is no escape. -/
theorem eats_plain (hc : c ≠ '\\') (rest : List Char) :
    (one frontEnd.rulebook (.sequence [.not (char '\\'), .any])).eats [c] rest
      (.list [.nothing, .char c]) := by
  have hspurns : (one frontEnd.rulebook (char '\\')).spurns (c :: rest) :=
    spurns_of_head (words_char '\\') (by simpa using hc)
  exact eats_sequence (eats_cons (eats_not hspurns) (eats_single (eats_anyChar c rest)))

theorem eats_escape (hc : escapeChars.contains c = true) (rest : List Char) :
    (one frontEnd.rulebook (.sequence [char '\\', charClass "escape character"
      escapeChars.contains])).eats ['\\', c] rest (.list [.char '\\', .char c]) :=
  eats_sequence (eats_cons (eats_char '\\' ([c] ++ rest))
    (eats_single (eats_charClass "escape character" hc rest)))

/-- Hexadecimal digits are read one after the other. -/
theorem eats_hexDigits {ds : List Char} (hds : ∀ d ∈ ds, isHexDigit d = true)
    (rest : List Char) :
    (all frontEnd.rulebook (ds.map fun _ => hexDigit)).eats ds rest (ds.map .char) := by
  induction ds with
  | nil => exact eats_nil
  | cons d ds ih =>
    obtain ⟨hd, hds⟩ := List.forall_mem_cons.mp hds
    exact eats_cons (l := [d]) (eats_charClass "hex digit" hd (ds ++ rest)) (ih hds)

theorem eats_unicode {d₁ d₂ d₃ d₄ : Char}
    (hds : ∀ d ∈ [d₁, d₂, d₃, d₄], isHexDigit d = true) (rest : List Char) :
    (one frontEnd.rulebook (.sequence [char '\\', char 'u', hexDigit, hexDigit, hexDigit,
      hexDigit])).eats ['\\', 'u', d₁, d₂, d₃, d₄] rest
      (.list (.char '\\' :: .char 'u' :: [d₁, d₂, d₃, d₄].map .char)) := by
  have hletter := eats_cons (eats_char 'u' ([d₁, d₂, d₃, d₄] ++ rest)) (eats_hexDigits hds rest)
  exact eats_sequence (eats_cons (eats_char '\\' (['u', d₁, d₂, d₃, d₄] ++ rest)) hletter)

theorem quotedChar?_unicode {d₁ d₂ d₃ d₄ : Char} (hds : Valid 16 [d₁, d₂, d₃, d₄])
    (hc : denoted 16 [d₁, d₂, d₃, d₄] = c.toNat) :
    quotedChar? (.list (.char '\\' :: .char 'u' :: [d₁, d₂, d₃, d₄].map .char)) = some c := by
  have htext : (Node.list ([d₁, d₂, d₃, d₄].map .char)).flatten =
      String.ofList [d₁, d₂, d₃, d₄] := Node.flatten_chars _
  show unicodeEscape? (Node.list ([d₁, d₂, d₃, d₄].map .char)).flatten = some c
  rw [htext, unicodeEscape?_eq hds hc]

theorem reduceQuotedChar_eq {rule : String} {n : Node} (h : quotedChar? n = some c) :
    reduceQuotedChar rule n = .ok (.char c) := by
  rw [reduceQuotedChar, h]

/-- **A spelling is read as the character that it spells**, whatever follows. -/
theorem eats_quotedChar (h : Spells quote c w) (rest : List Char) :
    (one frontEnd.rulebook (call "qchar")).eats w rest (.char c) := by
  -- the alternatives before are refused at the first character or at the second
  have hescape {cs} (hcs : ∀ d ds, cs = '\\' :: d :: ds → escapeChars.contains d = false) :
      (one frontEnd.rulebook (.sequence [char '\\', charClass "escape character"
        escapeChars.contains])).spurns cs := by
    apply words_escape.scans.spurns
    rintro ⟨_, rest, rfl, d, rfl, hd⟩
    rw [hcs d rest rfl] at hd
    cases hd
  cases h with
  | plain hquote hc =>
    have hunicode : (one frontEnd.rulebook (.sequence [char '\\', char 'u', hexDigit, hexDigit,
        hexDigit, hexDigit])).spurns (c :: rest) := by
      apply words_unicode.scans.spurns
      rintro ⟨_, rest, heq, ds, rfl, -⟩
      exact hc (List.cons.inj heq).1
    apply eats_call (v := .list [.nothing, .char c]) rfl rfl rfl
    apply eats_choice
    apply eats_any_of_spurns (hescape fun d ds heq => absurd (List.cons.inj heq).1 hc)
    exact eats_any_of_spurns hunicode (eats_any (eats_plain hc rest))
  | @escape letter c hletter =>
    obtain ⟨hclass, hunescape⟩ := escapes_eq hletter
    apply eats_call rfl rfl (reduceQuotedChar_eq (n := .list [.char '\\', .char letter]) hunescape)
    exact eats_choice (eats_any (eats_escape hclass rest))
  | unicode hvalid hcode =>
    apply eats_call rfl rfl (reduceQuotedChar_eq (quotedChar?_unicode hvalid hcode))
    apply eats_choice
    apply eats_any_of_spurns
    · apply hescape
      intro d ds heq
      cases heq
      decide
    · apply eats_any
      apply eats_unicode
      intro d hd
      exact isHexDigit_of_digitValue (hvalid.lt d hd)

/-- A quoted character is read where the mark does not end the literal. -/
theorem eats_quoted (hquote : quote ≠ '\\') (h : Spells quote c w) (rest : List Char) :
    (one frontEnd.rulebook (.sequence [.not (char quote), call "qchar"])).eats w rest
      (.list [.nothing, .char c]) := by
  have hspurns : (one frontEnd.rulebook (char quote)).spurns (w ++ rest) := by
    apply spurns_of_head (words_char quote)
    obtain ⟨d, w, rfl⟩ := List.exists_cons_of_ne_nil h.ne_nil
    exact h.head?_ne hquote
  exact eats_sequence (eats_cons (eats_not hspurns) (eats_single (eats_quotedChar h rest)))

/-- Quoted characters are read up to the mark that ends the literal. -/
theorem eatsMany_quoted (hquote : quote ≠ '\\') {u : List Char} {ws : List (List Char)}
    (h : List.Forall₂ (Spells quote) u ws) (rest : List Char) :
    EatsMany frontEnd.rulebook (.sequence [.not (char quote), call "qchar"]) ws.flatten
      (quote :: rest) (u.map fun c => .list [.nothing, .char c]) := by
  induction h with
  | nil =>
    -- the mark itself is refused
    apply eatsMany_nil
    exact spurns_sequence (spurns_cons fun p => ⟨_, .not (eats_char quote rest p)⟩)
  | cons hc _ ih => exact eatsMany_cons (eats_quoted hquote hc _) hc.ne_nil ih

/-! ## Lexemes by their first character -/

/-- Nothing is stepped over in front of a character that begins no comment and is no blank. -/
theorem takes_gap (hhash : c ≠ '#') (hblank : Text.isBlank c = false) (cs : List Char) :
    (one frontEnd.rulebook (call "_")).Takes [] (c :: cs) .nothing := by
  intro cs' hcs'
  -- however the text is cut, it is empty or begins with the character
  have hhead {test : Char → Bool} (htest : test c = false) : cs'.head?.any test = false := by
    rcases cs' with _ | ⟨d, cs'⟩
    · rfl
    · obtain ⟨rfl, -⟩ := List.cons_prefix_cons.mp hcs'
      exact htest
  have hcomment : (one frontEnd.rulebook (call "comment")).spurns cs' := by
    apply spurns_call rfl
    exact spurns_sequence_of_head (hhead (beq_eq_false_iff_ne.mpr hhash))
  have hspace : (one frontEnd.rulebook (call "space")).spurns cs' := by
    apply spurns_call rfl
    exact spurns_of_head (words_charClass "whitespace" Text.isBlank) (hhead hblank)
  apply eats_call rfl rfl rfl
  apply eats_zeroOrMore
  apply eatsMany_nil
  exact spurns_choice (spurns_any hcomment (spurns_any hspace spurns_any_nil))

/-- A symbol begins with a number sign. -/
theorem spurns_symbol (hhash : c ≠ '#') (cs : List Char) :
    (one frontEnd.rulebook (call "symbol")).spurns (c :: cs) := by
  apply spurns_call rfl
  exact spurns_sequence_of_head (beq_eq_false_iff_ne.mpr hhash)

/-- A lexeme is read as one of its alternatives. -/
theorem eats_lexeme {l : List Char} {v : Node}
    (h : (any frontEnd.rulebook (lexemes.map call)).eats l rest v) :
    (one frontEnd.rulebook (call "lexeme")).eats l rest v := by
  intro p
  have hbody : rules.lookup "lexeme" = some (.choice (lexemes.map call)) := rfl
  exact .rule (rulebook_call hbody) (eats_choice h p)

/-- What is read as a lexeme without a gap before it is one. -/
theorem isLexeme_of_eats {cs : List Char} {t : Token} (hhash : c ≠ '#')
    (hblank : Text.isBlank c = false)
    (h : (any frontEnd.rulebook (lexemes.map call)).eats (c :: cs) [] (.token t)) :
    IsLexeme (c :: cs) t := by
  apply isLexeme_of_takes (takes_gap hhash hblank (cs ++ [])) (List.cons_ne_nil c cs)
  intro rest hrest
  obtain rfl := List.prefix_nil.mp hrest
  exact eats_lexeme h

/-! ## Literals -/

/-- The marks of characters and of strings. -/
def marks : List Char := ['\'', '"']

/-- No mark is in a class without the marks. -/
theorem eq_false_of_marks (test : Char → Bool) (hquote : quote ∈ marks)
    (htest : marks.any test = false) : test quote = false := by
  simpa using List.any_eq_false.mp htest quote hquote

theorem spurns_number (hquote : quote ∈ marks) (cs : List Char) :
    (one frontEnd.rulebook (call "number")).spurns (quote :: cs) := by
  have hsign : (one frontEnd.rulebook (char '-')).spurns (quote :: cs) :=
    spurns_of_head (words_char '-') (eq_false_of_marks (· == '-') hquote (by decide))
  have hdigit : (one frontEnd.rulebook (charClass "digit" Char.isDigit)).spurns (quote :: cs) :=
    spurns_of_head (words_charClass "digit" Char.isDigit)
      (eq_false_of_marks Char.isDigit hquote (by decide))
  apply spurns_call rfl
  apply spurns_sequence
  -- the sign may be missing, but no digit follows
  apply spurns_cons_of_eats (l := []) (eats_optional_of_spurns hsign)
  exact spurns_cons (spurns_oneOrMore hdigit)

/-- A literal of a character is read as that character. -/
theorem eats_charLiteral (h : Spells '\'' c w) (rest : List Char) :
    (one frontEnd.rulebook (call "char")).eats ('\'' :: w ++ ['\'']) rest (.token (.char c)) := by
  have hreduce : reduceChar "char" (.list [.char '\'', .list [.nothing, .char c], .char '\'']) =
      .ok (.token (.char c)) := by
    have htext : (Node.list [.nothing, .char c]).flatten.toList = [c] := by
      simp [Node.flatten_list]
    rw [reduceChar, htext]
  have hbody := eats_cons (eats_quoted (by decide) h (['\''] ++ rest))
    (eats_single (eats_char '\'' rest))
  apply eats_call rfl rfl hreduce
  exact eats_sequence (eats_cons (l := ['\'']) (eats_char '\'' (w ++ ['\''] ++ rest)) hbody)

/-- A literal of a string is read as that string. -/
theorem eats_stringLiteral {u : List Char} {ws : List (List Char)}
    (h : List.Forall₂ (Spells '"') u ws) (rest : List Char) :
    (one frontEnd.rulebook (call "string")).eats ('"' :: ws.flatten ++ ['"']) rest
      (.token (.string (String.ofList u))) := by
  have htext : (Node.list (u.map fun c => .list [.nothing, .char c])).flatten =
      String.ofList u := by
    apply Node.flatten_list_map
    intro c
    simp [Node.flatten_list]
  have hreduce : reduceString "string" (.list [.char '"',
      .list (u.map fun c => .list [.nothing, .char c]), .char '"']) =
        .ok (.token (.string (String.ofList u))) := by
    rw [reduceString, htext]
  have hbody := eats_cons (eats_zeroOrMore (eatsMany_quoted (by decide) h rest))
    (eats_single (eats_char '"' rest))
  apply eats_call rfl rfl hreduce
  exact eats_sequence (eats_cons (l := ['"']) (eats_char '"' (ws.flatten ++ ['"'] ++ rest)) hbody)

/-- What begins with a mark is a lexeme if it is read as a character, a string or what comes behind
them. -/
theorem isLexeme_of_mark (hquote : quote ∈ marks) {cs : List Char} {t : Token}
    (h : (any frontEnd.rulebook [call "char", call "string", call "ident", call "punct"]).eats
      (quote :: cs) [] (.token t)) : IsLexeme (quote :: cs) t := by
  have hhash := beq_eq_false_iff_ne.mp (eq_false_of_marks (· == '#') hquote (by decide))
  have hblank := eq_false_of_marks Text.isBlank hquote (by decide)
  -- symbols and numbers are tried first
  have halternatives := eats_any_of_spurns (spurns_symbol hhash (cs ++ []))
    (eats_any_of_spurns (spurns_number hquote (cs ++ [])) h)
  exact isLexeme_of_eats hhash hblank halternatives

end Lexical

/-- **Literals are read as what was spelled in them.** Let each character of a text be spelled in
any of the ways that are open to it. Between double quotes the spellings are read as one string,
which is the text. Between single quotes the spelling of one character is read as one character,
which is that one. -/
theorem literals_decode :
    (∀ (u : String) (ws : List (List Char)), List.Forall₂ (Lexical.Spells '"') u.toList ws →
      Terminates (fun fuel => tokenize fuel none (String.ofList ('"' :: ws.flatten ++ ['"'])))
        (· = .ok [⟨.string u, .start⟩])) ∧
    ∀ (c : Char) (w : List Char), Lexical.Spells '\'' c w →
      Terminates (fun fuel => tokenize fuel none (String.ofList ('\'' :: w ++ ['\''])))
        (· = .ok [⟨.char c, .start⟩]) := by
  constructor
  · intro u ws h
    have hstring := Lexical.eats_stringLiteral h []
    rw [String.ofList_toList] at hstring
    have hchar : (one frontEnd.rulebook (call "char")).spurns
        ('"' :: ws.flatten ++ ['"'] ++ []) := by
      apply Lexical.spurns_call rfl
      exact Lexical.spurns_sequence_of_head rfl
    have hlexeme := Lexical.isLexeme_of_mark (by decide)
      (eats_any_of_spurns hchar (eats_any hstring))
    exact hlexeme.2
  · intro c w h
    have hchar := Lexical.eats_charLiteral h []
    have hlexeme := Lexical.isLexeme_of_mark (by decide) (eats_any hchar)
    exact hlexeme.2

/-- A quotation mark as an escape, a letter as its code point, a mark of the other kind, and a
backslash as its code point. -/
theorem literals_decode_marks :
    Terminates (fun fuel => tokenize fuel none "\"a\\\"\\u00E9\'\"")
        (· = .ok [⟨.string "a\"é\'", .start⟩]) ∧
      Terminates (fun fuel => tokenize fuel none "\'\\u005c\'")
        (· = .ok [⟨.char '\\', .start⟩]) := by
  have hvalid : Number.Valid 16 ['0', '0', 'E', '9'] := by decide
  have hvalid' : Number.Valid 16 ['0', '0', '5', 'c'] := by decide
  have hspells : List.Forall₂ (Lexical.Spells '"') "a\"é\'".toList
      [['a'], ['\\', '"'], ['\\', 'u', '0', '0', 'E', '9'], ['\'']] := by
    refine .cons (.plain ?_ ?_) (.cons (.escape ?_) (.cons (.unicode hvalid ?_)
      (.cons (.plain ?_ ?_) .nil))) <;> decide
  have hspells' : Lexical.Spells '\'' '\\' ['\\', 'u', '0', '0', '5', 'c'] :=
    .unicode hvalid' (by decide)
  have hstring : "\"a\\\"\\u00E9\'\"" = String.ofList ('"' ::
      [['a'], ['\\', '"'], ['\\', 'u', '0', '0', 'E', '9'], ['\'']].flatten ++ ['"']) := by decide
  have hchar : "\'\\u005c\'" =
      String.ofList ('\'' :: ['\\', 'u', '0', '0', '5', 'c'] ++ ['\'']) := by decide
  rw [hstring, hchar]
  exact ⟨literals_decode.1 _ _ hspells, literals_decode.2 _ _ hspells'⟩

end Humus

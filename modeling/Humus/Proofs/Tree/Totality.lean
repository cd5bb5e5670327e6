import Humus.Proofs.Token.Shapes
import Humus.Proofs.Tree.Shapes
import Humus.Tree.Reading

/-!
# The front end is total

Both grammars are total, and the tokens of a source are finitely many. Hence every source has its
tokens or a lexical error, and every parse of it a syntax tree, a syntax error or a lexical error.

## Main definitions

* `tokenSource source`: the tokens of a source, written out

## Main results

* `exists_walks_tokenSource`: the tokens of a source are finitely many
* `readPattern_terminates`: a pattern of the syntax grammar over the tokens of a source
* `frontEnd_total`: reading terminates with a result or with an error of the source
-/

namespace Humus

open Dispatch (Terminates)
open Peg (World Source Place Pattern RuleRef Rulebook Walks Reads Settles Tape Chart Poised Charted
  Cursor Starts Input Failure)

/-! ## The rules of the front end -/

theorem total_lexical : frontEnd.rulebook.Total (rulesOf Lexical.grammarId Lexical.rules)
    (fun ref => ref.name ∈ Lexical.nullables) (fun ref => Lexical.layers.idxOf ref.name)
    Lexical.IsChar fun ref => Lexical.shape ref.name :=
  Lexical.total_grammar rfl

theorem total_syntactic : frontEnd.rulebook.Total (rulesOf Syntactic.grammarId Syntactic.rules)
    (fun ref => ref.name ∈ Syntactic.nullables) (fun ref => Syntactic.layers.idxOf ref.name)
    (fun _ => True) fun ref => Syntactic.shape ref.name :=
  Syntactic.total_grammar rfl

/-! ## Tokens -/

/-- The tokens of a source, written out. -/
def tokenSource (source : String) : Source Node :=
  .derived (.chars source.toList .start) (some (Lexical.call "_")) (Lexical.call "lexeme") 0

/-- The tokens of a source are finitely many, and they have the shape that the token grammar gives
to lexemes. -/
theorem exists_walks_of_total {shape : String → Node → Prop}
    (htotal : frontEnd.rulebook.Total (rulesOf Lexical.grammarId Lexical.rules)
      (fun ref => ref.name ∈ Lexical.nullables) (fun ref => Lexical.layers.idxOf ref.name)
      Lexical.IsChar fun ref => shape ref.name) (source : String) :
    ∃ xs, Walks frontEnd.rulebook (tokenSource source) xs ∧
      ∀ v ∈ xs.filterMap Place.token?, shape "lexeme" v := by
  have hwalks := Peg.walks_chars .start source.toList frontEnd.rulebook
  have hchars : ∀ v ∈ (Peg.charPlaces .start source.toList).filterMap Place.token?,
      Lexical.IsChar v := by
    rw [Peg.filterMap_charPlaces]
    intro v hv
    obtain ⟨c, -, rfl⟩ := List.mem_map.mp hv
    exact ⟨c, rfl⟩
  -- The places between which a rule of the token grammar is tried are those of the text.
  have hsettles : ∀ name ∈ Lexical.rules.map Prod.fst,
      Settles (Tape.ofPlaces (Peg.charPlaces .start source.toList)) frontEnd.rulebook
        (Lexical.call name) (shape name) :=
    fun name hname => htotal.settles hchars _ rfl ⟨rfl, hname⟩
  have hskip : ∀ p ∈ some (Lexical.call "_"),
      Settles (Tape.ofPlaces (Peg.charPlaces .start source.toList)) frontEnd.rulebook p
        (shape "_") := by
    rintro _ ⟨⟩
    exact hsettles "_" (by decide)
  obtain ⟨x, hx, hreads⟩ := hwalks.exists_head
  exact hwalks.exists_derived hskip (hsettles "lexeme" (by decide)) hx hreads 0

/-- **The tokens of a source are finitely many.** -/
theorem exists_walks_tokenSource (source : String) :
    ∃ xs, Walks frontEnd.rulebook (tokenSource source) xs ∧
      ∀ v ∈ xs.filterMap Place.token?, ∃ t, v = .token t :=
  exists_walks_of_total total_lexical source

variable {source : String} {xs : List (Place Node)}

/-- The world of the token stream is charted. -/
theorem exists_chart_tokenStream (source : String) : ∃ chart : Chart Node,
    Poised frontEnd.rulebook (fun _ => False) ((tokenSource source).depth + 1) chart
        (tokenStream source frontEnd).2 ∧
      (tokenStream source frontEnd).1.source? chart = some (tokenSource source) := by
  have htext : (Peg.Stream.ofString source).source? (fun _ => none) =
      some (Source.chars source.toList .start : Source Node) := rfl
  obtain ⟨chart, -, hcharted, hsource⟩ := frontEnd.exists_source_derive
    (some (Lexical.call "_")) (Lexical.call "lexeme") Charted.empty htext
  exact ⟨chart, ⟨rfl, hcharted, fun _ h => h.elim⟩, hsource⟩

/-- Cursors that hold tokens only are the tokens of a source, or those up to where no token can be
read. -/
theorem exists_stalled_of_tokensOf {cs : List (Cursor Node)}
    (h : ∀ v ∈ cs.filterMap Cursor.token?, ∃ t, v = .token t) {e : LexError}
    (he : tokensOf cs = .error e) : ∃ f, e = .stalled f := by
  induction cs generalizing e with
  | nil => cases he
  | cons c cs ih =>
    cases c with
    | finish p => cases he
    | stalled p f =>
      cases he
      exact ⟨f, rfl⟩
    | token p v rest =>
      obtain ⟨⟨t, rfl⟩, hcs⟩ := List.forall_mem_cons.mp h
      simp only [tokensOf] at he
      cases hrest : tokensOf cs with
      | ok ts =>
        rw [hrest] at he
        cases he
      | error e' =>
        rw [hrest] at he
        cases he
        exact ih hcs hrest

/-- Tokenizing terminates. -/
theorem tokenize_terminates (source : String) :
    Terminates (fun fuel => tokenize fuel none source) fun r =>
      (∃ ts, r = .ok ts) ∨ ∃ f, r = .error (.stalled f) := by
  obtain ⟨xs, hwalks, htokens⟩ := exists_walks_tokenSource source
  obtain ⟨chart, hw, hs⟩ := exists_chart_tokenStream source
  refine (hwalks.terminates_collect hw hs (Nat.lt_succ_self _)).bind ?_
  rintro ⟨result, w'⟩ ⟨cs, chart', rfl, hplaces, -⟩
  refine .of_eq (fun fuel => rfl) ?_
  rw [← Peg.filterMap_token?_eq hplaces] at htokens
  cases he : tokensOf cs with
  | ok ts => exact .inl ⟨ts, rfl⟩
  | error e =>
    obtain ⟨f, rfl⟩ := exists_stalled_of_tokensOf htokens he
    exact .inr ⟨f, rfl⟩

/-! ## Syntax trees -/

/-- A parse comes to a result that satisfies `P`, or to a syntax error or a lexical error. -/
def Answered {α : Type} (P : α → Prop) (r : Except ParseError α) : Prop :=
  (∃ a, r = .ok a ∧ P a) ∨ (∃ f, r = .error (.syntactic f)) ∨ ∃ f, r = .error (.lex (.stalled f))

/-- What is made of a result is a result, and errors are passed on. -/
theorem terminates_answered {α β : Type} {P : α → Prop} {Q : β → Prop}
    {run : Nat → Option (Except ParseError α)} (h : Terminates run (Answered P))
    {next : Except ParseError α → Option (Except ParseError β)}
    (hok : ∀ a, P a → ∃ b, next (.ok a) = some (.ok b) ∧ Q b)
    (herror : ∀ e, next (.error e) = some (.error e)) :
    Terminates (fun fuel => (run fuel).bind next) (Answered Q) := by
  refine h.bind fun r hr => ?_
  rcases hr with ⟨a, rfl, ha⟩ | ⟨f, rfl⟩ | ⟨f, rfl⟩
  · obtain ⟨b, hnext, hb⟩ := hok a ha
    exact .of_eq (fun _ => hnext) (.inl ⟨b, rfl, hb⟩)
  · exact .of_eq (fun _ => herror _) (.inr (.inl ⟨f, rfl⟩))
  · exact .of_eq (fun _ => herror _) (.inr (.inr ⟨f, rfl⟩))

/-- Over the tokens of a source a pattern of the syntax grammar matches or is refused. -/
theorem settles_tokens (xs : List (Place Node)) {p : Pattern Node} (hnative : p.isForeign = false)
    (hp : p.Within (rulesOf Syntactic.grammarId Syntactic.rules)) :
    Settles (Tape.ofPlaces xs) frontEnd.rulebook p
      (p.Yields (fun _ => True) fun ref => Syntactic.shape ref.name) :=
  total_syntactic.settles (fun _ _ => trivial) _ hnative hp

/-- The search for the reason of a failure terminates. -/
theorem refine_terminates (hwalks : Walks frontEnd.rulebook (tokenSource source) xs)
    {chart : Chart Node} {w : World Node} {d : Nat}
    (hw : Poised frontEnd.rulebook (fun _ => False) d chart w) {failure : Failure Node}
    {x : Place Node} (hx : x ∈ xs) (hplace : failure.furthest.place? chart = some x)
    {resume : String} (hresume : resume ∈ Syntactic.rules.map Prod.fst) :
    Terminates (fun fuel => refine fuel none resume failure w) fun _ => True := by
  by_cases hend : failure.furthest.isEnd = true
  · refine .of_eq (a := failure) (fun fuel => ?_) trivial
    rw [refine, if_pos hend]
  · obtain ⟨i, hi⟩ := List.getElem?_of_mem hx
    have hsettles := settles_tokens xs (p := Syntactic.call resume) rfl ⟨rfl, hresume⟩
    have hfixed : Reads frontEnd.rulebook (.fixed x) (.ok x) := Peg.reads_iff.mpr .fixed
    obtain ⟨f, hf, hsat⟩ := hwalks.exists_finds hsettles hi hfixed
    have hw' : Poised frontEnd.rulebook (fun _ => False) ((Source.fixed x).depth + 1) chart
        { w with answers := [] } := ⟨hw.rulebook, hw.charted, fun _ h => h.elim⟩
    have hstarts : Starts chart (Syntactic.call resume) 0
        (.cursor (Peg.matcher (Syntactic.call resume) 0) failure.furthest) (.fixed x) :=
      .cursor hplace
    have hrun := hstarts.terminates hw' (Nat.lt_succ_self _) hf
    simp only [refine, hend]
    refine hrun.bind fun r hr => ?_
    obtain ⟨out, w'⟩ := r
    obtain ⟨chart', hsays, -⟩ := hr
    rcases hsays.satisfies hsat with ⟨s, rfl, -⟩ | ⟨g, rfl, -⟩
    · exact .of_eq (fun fuel => rfl) trivial
    · exact .of_eq (fun fuel => rfl) trivial

/-- **Matching a pattern over the tokens of a source terminates**, with a value of the shape of the
pattern, a syntax error or a lexical error. -/
theorem readPattern_terminates (source : String) {p : Pattern Node} (hnative : p.isForeign = false)
    (hp : p.Within (rulesOf Syntactic.grammarId Syntactic.rules)) (resume : String)
    (hresume : resume ∈ Syntactic.rules.map Prod.fst) :
    Terminates (fun fuel => readPattern fuel none p resume source)
      (Answered (p.Yields (fun _ => True) fun ref => Syntactic.shape ref.name)) := by
  obtain ⟨xs, hwalks, -⟩ := exists_walks_tokenSource source
  obtain ⟨chart, hw, hs⟩ := exists_chart_tokenStream source
  obtain ⟨x, hx, hreads⟩ := hwalks.exists_head
  obtain ⟨f, hf, hsat⟩ := hwalks.exists_finds (settles_tokens xs hnative hp) hx hreads
  have hstarts : Starts chart p 0
      (.ask (tokenStream source frontEnd).1 (Peg.matcher p 0)) (tokenSource source) := .ask hs
  have hrun := hstarts.terminates (w := (tokenStream source frontEnd).2) hw (Nat.lt_succ_self _) hf
  refine hrun.bind ?_
  rintro ⟨out, w'⟩ ⟨chart', hsays, hev⟩
  rcases hsays.satisfies hsat with ⟨s, rfl, hs⟩ | ⟨g, rfl, y, hy, hplace⟩
  -- what has matched may have come to a stall of the tokens
  · cases hstall : s.stop.stall? with
    | some stall =>
      refine .of_eq (fun fuel => ?_) (.inr (.inr ⟨stall, rfl⟩))
      simp only [hstall]
      rfl
    | none =>
      refine .of_eq (fun fuel => ?_) (.inl ⟨s.value, rfl, hs⟩)
      simp only [hstall]
      rfl
  · have hw' := hw.evolve (hev hsat.ne_broken)
    refine (refine_terminates hwalks hw' hy hplace hresume).bind fun failure _ => ?_
    cases hstall : failure.furthest.stall? with
    | some stall => exact .of_eq (fun fuel => rfl) (.inr (.inr ⟨stall, rfl⟩))
    | none => exact .of_eq (fun fuel => rfl) (.inr (.inl ⟨failure, rfl⟩))

/-- Matching a rule over all tokens of a source terminates. -/
theorem readWhole_terminates (source name : String)
    (hname : name ∈ Syntactic.rules.map Prod.fst) :
    Terminates (fun fuel => readWhole fuel none name source) (Answered (Syntactic.shape name)) := by
  have hread := readPattern_terminates source (p := .sequence [Syntactic.call name, .finish]) rfl
    ⟨⟨rfl, hname⟩, trivial, trivial⟩ name hname
  refine terminates_answered hread ?_ fun e => rfl
  -- The value is the list of the value of the rule and of nothing, at the end.
  rintro _ ⟨_, rfl, n, _, rfl, hshape, _, _, rfl, rfl, rfl⟩
  exact ⟨n, rfl, hshape⟩

theorem parseExpr_terminates (source : String) :
    Terminates (fun fuel => parseExpr fuel none source) (Answered fun _ => True) := by
  have hread := readWhole_terminates source "expr" (by decide)
  refine terminates_answered hread ?_ fun e => rfl
  rintro _ ⟨e, rfl⟩
  exact ⟨e, rfl, trivial⟩

theorem parseStmt_terminates (source : String) :
    Terminates (fun fuel => parseStmt fuel none source) (Answered fun _ => True) := by
  have hread := readWhole_terminates source "stmt" (by decide)
  refine terminates_answered hread ?_ fun e => rfl
  rintro _ ⟨s, rfl⟩
  exact ⟨s, rfl, trivial⟩

theorem exists_stmtsOf {ns : List Node} (h : ∀ n ∈ ns, ∃ s, n = .stmt s) :
    ∃ ss, stmtsOf ns = .ok ss := by
  induction ns with
  | nil => exact ⟨[], rfl⟩
  | cons n ns ih =>
    obtain ⟨⟨s, rfl⟩, hns⟩ := List.forall_mem_cons.mp h
    obtain ⟨ss, hss⟩ := ih hns
    refine ⟨s :: ss, ?_⟩
    rw [stmtsOf, hss]
    rfl

theorem parseProgram_terminates (source : String) :
    Terminates (fun fuel => parseProgram fuel none source) (Answered fun _ => True) := by
  have hread := readPattern_terminates source (p := Syntactic.call "humus") rfl ⟨rfl, by decide⟩
    "stmt" (by decide)
  refine terminates_answered hread ?_ fun e => rfl
  rintro _ ⟨ns, rfl, hns⟩
  obtain ⟨ss, hss⟩ := exists_stmtsOf hns
  exact ⟨ss, congrArg some hss, trivial⟩

/-! ## Totality -/

/-- The parse matched or failed. It was not stopped, and it was answered. -/
def Concluded (r : Peg.Outcome Node × World Node) : Prop :=
  (∃ s, r.1 = .ok s) ∨ ∃ f, r.1 = .error (.failed f)

/-- **The front end is total.** Without a limit, reading any source terminates: with its tokens or a
lexical error, and with its syntax tree, a syntax error or a lexical error. The grammars are never
at fault: whatever text a rule of the token grammar is matched over, and whatever list of nodes a
rule of the syntax grammar is matched over, it matches or fails. -/
theorem frontEnd_total :
    (∀ source, Terminates (fun fuel => tokenize fuel none source) fun r =>
      (∃ ts, r = .ok ts) ∨ ∃ f, r = .error (.stalled f)) ∧
    (∀ source, Terminates (fun fuel => parseExpr fuel none source) (Answered fun _ => True)) ∧
    (∀ source, Terminates (fun fuel => parseStmt fuel none source) (Answered fun _ => True)) ∧
    (∀ source, Terminates (fun fuel => parseProgram fuel none source) (Answered fun _ => True)) ∧
    (∀ rule ∈ Lexical.rules, ∀ text, Terminates
      (fun fuel => Peg.parse fuel none (Lexical.call rule.1) (.ofString text) frontEnd)
      Concluded) ∧
    ∀ rule ∈ Syntactic.rules, ∀ nodes, Terminates
      (fun fuel => Peg.parse fuel none (Syntactic.call rule.1) (.ofList nodes) frontEnd)
      Concluded := by
  refine ⟨tokenize_terminates, parseExpr_terminates, parseStmt_terminates, parseProgram_terminates,
    fun rule hrule text => ?_, fun rule hrule nodes => ?_⟩
  · have hchars : ∀ v ∈ (Input.text text).tokens, Lexical.IsChar v := by
      intro v hv
      obtain ⟨c, -, rfl⟩ := List.mem_map.mp hv
      exact ⟨c, rfl⟩
    have hparse := total_lexical.parse_terminates (.text text) hchars
      (p := Lexical.call rule.1) rfl ⟨rfl, List.mem_map_of_mem hrule⟩
    exact hparse.imp fun r hr => hr.imp_left fun ⟨s, hs, _⟩ => ⟨s, hs⟩
  · have hparse := total_syntactic.parse_terminates (.items nodes) (fun _ _ => trivial)
      (p := Syntactic.call rule.1) rfl ⟨rfl, List.mem_map_of_mem hrule⟩
    exact hparse.imp fun r hr => hr.imp_left fun ⟨s, hs, _⟩ => ⟨s, hs⟩

end Humus

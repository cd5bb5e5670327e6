import Humus.Proofs.Token.Reading

/-!
# Lexical errors

The syntax grammar takes the end of the token stream for the end of the input, also where the stream
ends because no token can be read. Still no text is lost: a source with a syntax tree has tokens,
and the tree is made of all of them. A lexical error of a parse is the error of tokenizing, and a
syntax error is noticed at a token of the source or at its end.

## Main definitions

* `Agrees source p tree r`: the result `r` of a parse fits what tokenizing the source comes to

## Main results

* `readPattern_notices`: where a parse of the tokens of a source stops
* `unreadable_text_noticed`: the three parses agree with tokenizing
-/

namespace Humus

open Dispatch (Terminates)
open Peg (Chart Cursor Derives Failure Finds Pattern Place Poised Reads Source Starts Success Tape
  Verdict Walks World lazyTape)
open Humus.Tree (Expr Stmt)

/-- Match a pattern over the tokens of a source. -/
abbrev parseTokens (fuel : Nat) (p : Pattern Node) (source : String) :
    Option (Peg.Outcome Node × World Node) :=
  Peg.parse fuel none p (tokenStream source frontEnd).1 (tokenStream source frontEnd).2

/-- The result of matching `p` over the tokens of a source and making a tree of the value, as `tree`
says, fits what tokenizing the source comes to. -/
inductive Agrees {α : Type} (source : String) (p : Pattern Node) (tree : α → Node → Prop) :
    Except ParseError α → Prop where
  /-- The match that a tree is made of consumed every token of the source. -/
  | tree {a ts s} :
      Terminates (fun fuel => tokenize fuel none source) (· = .ok ts) →
      Terminates (fun fuel => parseTokens fuel p source) (·.1 = .ok s) →
      tree a s.value → s.start.offset = 0 → s.stop.offset = ts.length →
      Agrees source p tree (.ok a)
  /-- A lexical error is that of tokenizing. -/
  | lex {f f'} :
      Terminates (fun fuel => tokenize fuel none source) (· = .error (.stalled f')) →
      f'.position.position = f.position.position → f'.furthest.position = f.furthest.position →
      f'.expected = f.expected → Agrees source p tree (.error (.lex (.stalled f)))
  /-- A syntax error is noticed at a cursor that tokenizing comes to, at a token or at the end. -/
  | syntactic {f cs c} :
      Terminates (fun fuel => collectTokens fuel source) (·.1 = .ok cs) →
      cs[f.furthest.offset]? = some c → c.position = f.furthest.position →
      c.token? = f.furthest.token? → c.stall? = none → f.furthest.stall? = none →
      Agrees source p tree (.error (.syntactic f))

/-! ## Matches that go to the end -/

section Ends

variable {C V : Type} [Peg.MatchValue V] [DecidableEq V] {T : Tape C V} {R : Peg.Rulebook V}
  {x y : C} {v : V}

theorem end_of_items {ps : List (Pattern V)} {values : List V}
    (h : Derives T R (.items (ps ++ [.finish]) values) x (.matched y v)) :
    T.token? y = none ∧ ∃ vs, v = Peg.MatchValue.list vs := by
  induction ps generalizing values x with
  | nil =>
    cases h with
    | itemsNext h₁ h₂ =>
      cases h₁ with
      | finish hend =>
        cases h₂
        exact ⟨hend, _, rfl⟩
    | itemsStop _ hm => cases hm
  | cons p ps ih =>
    cases h with
    | itemsNext _ h₂ => exact ih h₂
    | itemsStop _ hm => cases hm

/-- A sequence that ends in the end of the input stops there. -/
theorem end_of_sequence (ps : List (Pattern V))
    (h : Derives T R (.whole (.sequence (ps ++ [.finish]))) x (.matched y v)) :
    T.token? y = none ∧ ∃ vs, v = Peg.MatchValue.list vs := by
  cases h with
  | sequence h => exact end_of_items h

end Ends

/-- A program is matched to the end of the input. -/
theorem end_of_program {T : Tape (Place Node) Node} {x y : Place Node} {v : Node}
    (h : Derives T frontEnd.rulebook (.whole (Syntactic.call "humus")) x (.matched y v)) :
    T.token? y = none := by
  have hbody : Syntactic.rules.lookup "humus" =
      some (.sequence ([.zeroOrMore (Syntactic.call "stmt")] ++ [.finish])) := rfl
  have hgrammar : frontEnd.grammar? Syntactic.grammarId =
      some (reducedGrammar Syntactic.rules Syntactic.reductions) := rfl
  obtain ⟨u, hu, -⟩ := exists_body_of_rule hgrammar hbody rfl h
  exact (end_of_sequence _ hu).1

/-! ## Where a parse stops -/

variable {source : String} {xs : List (Place Node)} {fuel : Nat} {limit : Option Nat}
  {p : Pattern Node} {resume : String}

/-- A failure is refined to one at a place of the source. -/
theorem refine_furthest (hwalks : Walks frontEnd.rulebook (tokenSource source) xs)
    {chart : Chart Node} {w : World Node} {d : Nat}
    (hw : Poised frontEnd.rulebook (fun _ => False) d chart w) {f g : Failure Node}
    {x : Place Node} (hx : x ∈ xs) (hplace : f.furthest.place? chart = some x)
    (h : refine fuel limit resume f w = some g) :
    ∃ chart', ∃ y ∈ xs, g.furthest.place? chart' = some y := by
  rw [refine] at h
  split at h
  · cases h
    exact ⟨chart, x, hx, hplace⟩
  · obtain ⟨⟨out, w'⟩, hrun, h⟩ := Option.bind_eq_some_iff.mp h
    have hw' : Poised frontEnd.rulebook (fun _ => False) ((Source.fixed x).depth + 1) chart
        { w with answers := [] } := ⟨hw.rulebook, hw.charted, fun _ h => h.elim⟩
    have hstarts : Starts chart (Syntactic.call resume) 0
        (.cursor (Peg.matcher (Syntactic.call resume) 0) f.furthest) (.fixed x) := .cursor hplace
    rcases hstarts.runMatch_says hw' (Nat.lt_succ_self _) hrun with
      ⟨k, -, rfl⟩ | ⟨chart', finding, hf, hsays, -⟩
    · cases h
      exact ⟨chart, x, hx, hplace⟩
    · cases hsays with
      | @refused deeper y r hy hr =>
        dsimp only at h
        split at h
        · cases h
          -- the match was refused at a place behind the one where the failure was noticed
          generalize he : Peg.Finding.refused y r = finding at hf
          cases hf with
          | unread => cases he
          | @read z o hz ho =>
            obtain rfl : x = z := Except.ok.inj (hz.unique (Peg.reads_iff.mpr .fixed))
            have hall := hwalks.all_mem hx ho
            cases o with
            | refused r => cases he; exact ⟨chart', _, hall, hr.furthest⟩
            | matched | broken => cases he
        · cases h
          exact ⟨chart, x, hx, hplace⟩
      | matched | fault | silence =>
        cases h
        exact ⟨chart, x, hx, hplace⟩

/-- What a parse of the tokens of a source notices of the place where it stops. -/
inductive Notices (source : String) (xs : List (Place Node)) (fuel : Nat) (limit : Option Nat)
    (p : Pattern Node) : Except ParseError Node → Prop where
  | matched {s w' chart x y} :
      Peg.parse fuel limit p (tokenStream source frontEnd).1 (tokenStream source frontEnd).2 =
        some (.ok s, w') → xs[0]? = some x →
      s.start.place? chart = some x → s.stop.place? chart = some y →
      Derives (lazyTape frontEnd.rulebook) frontEnd.rulebook (.whole p) x (.matched y s.value) →
      s.stop.stall? = none → Notices source xs fuel limit p (.ok s.value)
  | stalled {c chart x f} :
      x ∈ xs → Cursor.place? chart c = some x → c.stall? = some f →
      Notices source xs fuel limit p (.error (.lex (.stalled f)))
  | refused {chart x f} :
      x ∈ xs → f.furthest.place? chart = some x → f.furthest.stall? = none →
      Notices source xs fuel limit p (.error (.syntactic f))
  | halted {stop} : Notices source xs fuel limit p (.error (.halted stop))
  | incomplete : Notices source xs fuel limit p (.error .incomplete)

/-- **A parse stops at a place of its source.** -/
theorem readPattern_notices (hwalks : Walks frontEnd.rulebook (tokenSource source) xs)
    {r : Except ParseError Node} (h : readPattern fuel limit p resume source = some r) :
    Notices source xs fuel limit p r := by
  obtain ⟨chart, hw, hs⟩ := exists_chart_tokenStream source
  obtain ⟨x, hx, hreads⟩ := hwalks.exists_head
  have hstarts : Starts chart p 0
      (.ask (tokenStream source frontEnd).1 (Peg.matcher p 0)) (tokenSource source) := .ask hs
  obtain ⟨⟨out, w'⟩, hrun, h⟩ := Option.bind_eq_some_iff.mp h
  rcases hstarts.runMatch_says (w := (tokenStream source frontEnd).2) hw (Nat.lt_succ_self _) hrun
    with ⟨k, -, rfl⟩ | ⟨chart', finding, hf, hsays, hev⟩
  · cases h
    exact .halted
  have hmem : x ∈ xs := List.mem_of_getElem? hx
  -- Unless nothing was answered, the finding is the verdict at the first place.
  cases hsays with
  | @matched start stop x' y v hstart hstop =>
    generalize he : Peg.Finding.matched x' y v = finding at hf
    cases hf with
    | unread => cases he
    | @read z o hz ho =>
      obtain rfl := Except.ok.inj (hz.unique hreads)
      have hall := hwalks.all_mem hmem ho
      cases o with
      | refused | broken => cases he
      | matched y v =>
        cases he
        dsimp only at h
        split at h
        · rename_i stall hstall
          cases h
          exact .stalled hall hstop hstall
        · rename_i hstall
          cases h
          exact .matched hrun hx hstart hstop ho hstall
  | @refused g x' r' hx' hr =>
    have hevolves := hev fun b hb => by cases hb
    generalize he : Peg.Finding.refused x' r' = finding at hf
    cases hf with
    | unread => cases he
    | @read z o hz ho =>
      obtain rfl := Except.ok.inj (hz.unique hreads)
      have hall := hwalks.all_mem hmem ho
      cases o with
      | matched | broken => cases he
      | refused r =>
        cases he
        obtain ⟨failure, hrefine, h⟩ := Option.bind_eq_some_iff.mp h
        obtain ⟨chart'', y, hy, hplace⟩ :=
          refine_furthest hwalks (hw.evolve hevolves) hall hr.furthest hrefine
        split at h
        · rename_i stall hstall
          cases h
          exact .stalled hy hplace hstall
        · rename_i hstall
          cases h
          exact .refused hy hplace hstall
  | fault => cases h; exact .halted
  | silence => cases h; exact .incomplete

/-! ## Trees -/

/-- A result of a parse is passed on: a value as a tree of it, and an error as it is. -/
inductive Passes {α : Type} (tree : α → Node → Prop) :
    Except ParseError Node → Except ParseError α → Prop where
  | ok {n a} : tree a n → Passes tree (.ok n) (.ok a)
  | unreduced {n expected found} : Passes tree (.ok n) (.error (.unreduced expected found))
  | error {e} : Passes tree (.error e) (.error e)

/-- The node is the value of a rule that was matched over all tokens. -/
def IsWhole {α : Type} (node : α → Node) (a : α) (n : Node) : Prop :=
  ∃ rest, n = .list (node a :: rest)

/-- **A result fits the tokens**, if matches of the pattern go to the end of the input. -/
theorem agrees_of_readPattern {α : Type} {tree tree' : α → Node → Prop}
    (hend : ∀ x y n, Derives (lazyTape frontEnd.rulebook) frontEnd.rulebook (.whole p) x
      (.matched y n) → y.token? = none ∧ ∀ a, tree a n → tree' a n)
    {r : Except ParseError Node} (hread : readPattern fuel none p resume source = some r)
    {r' : Except ParseError α} (hpasses : Passes tree r r')
    (hanswered : Answered (fun _ : α => True) r') : Agrees source p tree' r' := by
  obtain ⟨xs, hwalks, -⟩ := exists_walks_tokenSource source
  have hnotices := readPattern_notices hwalks hread
  cases hnotices with
  | @matched s w' chart x y hrun hx hstart hstop ho hstall =>
    obtain ⟨hytoken, htree⟩ := hend x y s.value ho
    cases hpasses with
    | unreduced => rcases hanswered with ⟨_, h, -⟩ | ⟨_, h⟩ | ⟨_, h⟩ <;> cases h
    | @ok _ a ha =>
      -- The match stopped at the last place, and that is a clean end.
      have hy : y ∈ xs := hwalks.all_mem (List.mem_of_getElem? hx) ho
      have hlast := hwalks.getLast?_of_mem hy hytoken
      have hystall : y.stall? = none := by
        rw [Cursor.stall?_of_place? hstop, hstall]
        rfl
      obtain ⟨q, rfl⟩ := Place.exists_finish hytoken hystall
      have hlexes := tokenize_of_getLast? hwalks hlast
      have hparse := (Peg.runMatch_mono none _ _).terminates hrun
        (P := fun r => r.1 = Except.ok s) rfl
      have hstop' : s.stop.offset = (xs.filterMap tokenAt?).length := by
        rw [← Cursor.offset_of_place? hstop]
        rw [List.getLast?_eq_getElem?] at hlast
        rw [hwalks.offset_eq hlast, length_filterMap_tokenAt? hwalks]
        omega
      have hstart' : s.start.offset = 0 := by
        rw [← Cursor.offset_of_place? hstart, hwalks.offset_eq hx]
      refine .tree (hlexes.imp ?_) hparse (htree a ha) hstart' hstop'
      rintro r h
      cases h
      rfl
  | @stalled c chart x f hx hc hstall =>
    cases hpasses with | error =>
    have hxstall : x.stall? = some f.stall := by
      rw [Cursor.stall?_of_place? hc, hstall]
      rfl
    have hlast := hwalks.getLast?_of_mem hx (Place.token?_of_stall? hxstall)
    have hlexes := tokenize_of_getLast? hwalks hlast
    obtain ⟨result, hresult, hrun⟩ := hlexes
    cases hresult with
    | finish => cases hxstall
    | @stalled q f' =>
      have hf : f'.stall = f.stall := Option.some.inj hxstall
      simp only [Failure.stall, Peg.Stall.mk.injEq] at hf
      exact .lex ⟨_, rfl, hrun⟩ hf.1 hf.2.1 hf.2.2.2
  | @refused chart x f hx hplace hstall =>
    cases hpasses with | error =>
    -- the place has its cursor among those that were collected, at its offset
    obtain ⟨⟨_, w'⟩, ⟨cs, chart', rfl, hplaces⟩, hcollect⟩ := exists_collect_tokenStream hwalks
    obtain ⟨i, hi⟩ := List.getElem?_of_mem hx
    obtain ⟨c, hc, hcplace⟩ := Peg.exists_getElem?_cursor hplaces hi
    have hoffset : f.furthest.offset = i := by
      rw [← Cursor.offset_of_place? hplace, hwalks.offset_eq hi, Nat.zero_add]
    refine .syntactic ⟨_, rfl, hcollect⟩ (hoffset ▸ hc) ?_ ?_ ?_ hstall
    · rw [← Cursor.position_of_place? hcplace, Cursor.position_of_place? hplace]
    · rw [← Cursor.token?_of_place? hcplace, Cursor.token?_of_place? hplace]
    · have hstalls := (Cursor.stall?_of_place? hcplace).symm.trans (Cursor.stall?_of_place? hplace)
      rw [hstall] at hstalls
      exact Option.map_eq_none_iff.mp hstalls
  | halted | incomplete =>
    cases hpasses
    rcases hanswered with ⟨_, h, -⟩ | ⟨_, h⟩ | ⟨_, h⟩ <;> cases h

/-- A rule that is matched over a whole source gives its value, and perhaps a list of it. -/
theorem exists_readPattern_of_readWhole {name : String} {r : Except ParseError Node}
    (h : readWhole fuel none name source = some r) :
    ∃ r', readPattern fuel none (.sequence [Syntactic.call name, .finish]) name source = some r' ∧
      Passes (fun a n => n = a ∨ IsWhole id a n) r' r := by
  obtain ⟨r', hread, hmap⟩ := Option.bind_eq_some_iff.mp h
  refine ⟨r', hread, ?_⟩
  obtain rfl := Option.some.inj hmap
  cases r' with
  | error e => exact .error
  | ok n =>
    refine .ok ?_
    dsimp only
    split
    · exact .inr ⟨_, rfl⟩
    · exact .inl rfl

/-- What is made of the value of a rule that is matched over a whole source. -/
theorem agrees_of_readWhole {α : Type} {node : α → Node} {name : String}
    {whole : Except ParseError Node} (hwhole : readWhole fuel none name source = some whole)
    {r : Except ParseError α} (hpasses : Passes (fun a n => n = node a) whole r)
    (hnode : ∀ a ns, node a ≠ .list ns) (hanswered : Answered (fun _ : α => True) r) :
    Agrees source (.sequence [Syntactic.call name, .finish]) (IsWhole node) r := by
  obtain ⟨r', hread, hwhole⟩ := exists_readPattern_of_readWhole hwhole
  have hpasses' : Passes (fun a n => n = node a ∨ IsWhole node a n) r' r := by
    cases hwhole with
    | error => cases hpasses; exact .error
    | unreduced => cases hpasses; exact .unreduced
    | ok hu =>
      cases hpasses with
      | unreduced => exact .unreduced
      | ok ha => subst ha; exact .ok hu
  refine agrees_of_readPattern (fun x y n ho => ?_) hread hpasses' hanswered
  -- the value of a sequence is a list
  obtain ⟨hy, ns, rfl⟩ := end_of_sequence [Syntactic.call name] ho
  exact ⟨hy, fun a ha => ha.resolve_left fun h => hnode a ns h.symm⟩

theorem parseExpr_agrees (source : String) :
    Terminates (fun fuel => parseExpr fuel none source)
      (Agrees source (.sequence [Syntactic.call "expr", .finish]) (IsWhole .expr)) := by
  obtain ⟨r, hanswered, N, hrun⟩ := parseExpr_terminates source
  obtain ⟨whole, hwhole, hnext⟩ := Option.bind_eq_some_iff.mp (hrun N le_rfl)
  refine ⟨r, agrees_of_readWhole hwhole ?_ (fun _ _ => Node.noConfusion) hanswered, N, hrun⟩
  rcases whole with e | n
  · cases hnext; exact .error
  · cases n with
    | expr e => cases hnext; exact .ok rfl
    | _ => cases hnext; exact .unreduced

theorem parseStmt_agrees (source : String) :
    Terminates (fun fuel => parseStmt fuel none source)
      (Agrees source (.sequence [Syntactic.call "stmt", .finish]) (IsWhole .stmt)) := by
  obtain ⟨r, hanswered, N, hrun⟩ := parseStmt_terminates source
  obtain ⟨whole, hwhole, hnext⟩ := Option.bind_eq_some_iff.mp (hrun N le_rfl)
  refine ⟨r, agrees_of_readWhole hwhole ?_ (fun _ _ => Node.noConfusion) hanswered, N, hrun⟩
  rcases whole with e | n
  · cases hnext; exact .error
  · cases n with
    | stmt s => cases hnext; exact .ok rfl
    | _ => cases hnext; exact .unreduced

/-- Statements are made of the nodes of statements, or else they are not made. -/
theorem stmtsOf_passes (ns : List Node) :
    Passes (fun ss n => n = .list (ss.map .stmt)) (.ok (.list ns)) (stmtsOf ns) := by
  induction ns with
  | nil => exact .ok rfl
  | cons n ns ih =>
    cases n with
    | stmt s =>
      rw [stmtsOf]
      generalize stmtsOf ns = r at ih
      cases ih with
      | ok h => cases h; exact .ok rfl
      | unreduced => exact .unreduced
    | _ => exact .unreduced

theorem parseProgram_agrees (source : String) :
    Terminates (fun fuel => parseProgram fuel none source)
      (Agrees source (Syntactic.call "humus") fun ss n => n = .list (ss.map .stmt)) := by
  obtain ⟨r, hanswered, N, hrun⟩ := parseProgram_terminates source
  refine ⟨r, ?_, N, hrun⟩
  obtain ⟨r', hread, hnext⟩ := Option.bind_eq_some_iff.mp (hrun N le_rfl)
  refine agrees_of_readPattern (fun x y n ho => ⟨end_of_program ho, fun _ h => h⟩) hread ?_ hanswered
  cases r' with
  | error e => cases hnext; exact .error
  | ok n =>
    cases n with
    | list ns => cases hnext; exact stmtsOf_passes ns
    | _ => cases hnext; exact .unreduced

/-- **Unreadable text is noticed.** Each of the three parses of a source terminates. A tree is made
of a match that consumed every token of the source, and the source has tokens. A lexical error is
that of tokenizing the source: the same position, furthest position and expectations. The furthest
cursor of a syntax error is no stall. It is a token of the source or the clean end of its tokens, at
the offset, row and column at which tokenizing comes to it. -/
theorem unreadable_text_noticed (source : String) :
    Terminates (fun fuel => parseExpr fuel none source)
        (Agrees source (.sequence [Syntactic.call "expr", .finish]) (IsWhole .expr)) ∧
      Terminates (fun fuel => parseStmt fuel none source)
        (Agrees source (.sequence [Syntactic.call "stmt", .finish]) (IsWhole .stmt)) ∧
      Terminates (fun fuel => parseProgram fuel none source)
        (Agrees source (Syntactic.call "humus") fun ss n => n = .list (ss.map .stmt)) :=
  ⟨parseExpr_agrees source, parseStmt_agrees source, parseProgram_agrees source⟩

end Humus

import Humus.Proofs.Peg.Repetitions
import Humus.Proofs.Tree.Factoring
import Humus.Proofs.Tree.LexicalErrors
import Humus.Proofs.Tree.RoundTrip

/-!
# The three ways to read a source

A source is read as an expression, as a statement or as a program. An expression is the last form
that a statement may have. It is tried behind the others, and none of them takes an expression away:
the other forms begin with words that no expression begins with, but for `LET`, and a statement that
begins with `LET` must not go on with `IN`, as an expression does. A program is a repetition of
statements up to the end, and no statement stands at the end.

## Main definitions

* `forms`: the forms of a statement that are no expressions

## Main results

* `reads_stmt_iff_reads_expr`: the statements that are expressions
* `reads_humus_iff_reads_stmt`: the programs of one statement
* `readPattern_eq_ok_iff`: what is read of a source is derived at its first token
* `entries_agree`: the three ways to read a source
-/

namespace Humus.Syntactic

open Peg (Derives MatchesAll Pattern Place RefusesAll RefusesOne Repeats Tape Verdict lazyTape)
open Humus.Tree

/-! ## Statements -/

/-- The forms of a statement that are no expressions. -/
def forms : List (Pattern Node) := [
  .sequence [word .let, call "eqtn", .not (word .in)],
  .sequence [.optional (.sequence [word .after, call "expr"]),
    word .send, call "expr", word .to, call "expr"],
  .sequence [word .create, call "ident", word .with, call "expr"],
  .sequence [word .become, call "expr"],
  .sequence [word .throw, call "expr"]]

section Reductions

variable {rule : String}

/-- A sending is no expression. -/
theorem sending_ne_expr {after msg recipient : Node} {e : Expr} :
    sending rule after msg recipient ≠ .ok (.expr e) := by
  intro h
  simp only [sending, bind_eq_ok_iff] at h
  obtain ⟨m, -, r, -, _ | after, -, h⟩ := h
  · simp [pure_eq_ok_iff] at h
  · simp [bind_eq_ok_iff, map_eq_ok_iff] at h

/-- What has one of the other forms is no expression. -/
theorem statement_ne_expr {items : List Node} {e : Expr} :
    statement rule items ≠ .ok (.expr e) := by
  intro h
  unfold statement at h
  split at h
  all_goals first
    | exact sending_ne_expr h
    | simp [bind_eq_ok_iff, map_eq_ok_iff, malformed] at h

/-- An expression reduces to an expression. -/
theorem exists_expr_of_reduceExpr_eq_ok {n u : Node} (h : reduceExpr rule n = .ok u) :
    ∃ e, u = .expr e := by
  simp only [reduceExpr, bind_eq_ok_iff, pure_eq_ok_iff] at h
  obtain ⟨items, -, e, -, rfl⟩ := h
  exact ⟨e, rfl⟩

end Reductions

section Statements

variable {C : Type} {T : Tape C Node} {x y : C} {e : Expr}

theorem exists_refused_word {k : Keyword} {ps : List (Pattern Node)}
    (hx : T.token? x ≠ some (.token (.keyword k))) :
    ∃ r, Derives T frontEnd.rulebook (.whole (.sequence (word k :: ps))) x (.refused r) :=
  Peg.exists_refused_sequence (Peg.exists_refused_terminal hx)

section Functional

variable (hT : ∀ x r r', T.next x r → T.next x r' → r' = r)
include hT

/-- A rule that cannot begin with the next token does not match. -/
theorem not_reads_of_barred {name : String} {t : Option Node} {v : Node} (hx : T.token? x = t)
    (h : barred t ⟨grammarId, name⟩ = true) : ¬ Reads T name x y v := by
  intro hreads
  obtain ⟨r, hr⟩ := Peg.exists_refused_rule (rulebook_bodyOf (w := frontEnd) rfl) hx h
  exact hreads.ne_refused hT hr

/-- An expression that begins with `LET` goes on with `IN` behind its equation, so that it is no
binding. -/
theorem exists_refused_binding (hlet : T.token? x = some (.token (.keyword .let)))
    (h : Reads T "expr" x y (.expr e)) : ∃ r, Derives T frontEnd.rulebook
      (.whole (.sequence [word .let, call "eqtn", .not (word .in)])) x (.refused r) := by
  have hword : ∀ {k : Keyword} {ps : List (Pattern Node)} {y : C} {v : Node}, k ≠ .let →
      ¬ Derives T frontEnd.rulebook (.whole (.sequence (word k :: ps))) x (.matched y v) := by
    intro k ps y v hk hmatched
    have hx : T.token? x ≠ some (.token (.keyword k)) := by
      rw [hlet]
      rintro ⟨⟩
      exact hk rfl
    obtain ⟨r, hr⟩ := exists_refused_word hx
    exact hmatched.ne_refused hT hr
  obtain ⟨v, hbody, -⟩ := h.exists_body rfl rfl
  have hbody : Derives T frontEnd.rulebook (.whole (.choice (Unfactored.led ++
      [.sequence [call "term", .optional (.sequence [punct ',', call "expr"])]]))) x
      (.matched y v) := hbody
  rcases hbody.choice_cases Verdict.matched_ne_broken with
    ⟨p, hp, _, _, ⟨⟩, hv, -⟩ | ⟨-, o', ho', halike⟩
  · simp only [Unfactored.led, List.mem_cons, List.not_mem_nil, or_false] at hp
    rcases hp with rfl | rfl | rfl
    · obtain ⟨vs, -, hall⟩ := hv.exists_matchesAll
      obtain _ | ⟨hword, _ | ⟨heqtn, _ | ⟨hin, -⟩⟩⟩ := hall
      exact ⟨_, (RefusesOne.tail hword (.tail heqtn (.head (.not hin)))).sequence⟩
    · exact absurd hv (hword (by decide))
    · exact absurd hv (hword (by decide))
  -- no term begins with `LET`
  · cases halike with
    | matched =>
      obtain ⟨vs, -, hall⟩ := ho'.exists_matchesAll
      obtain _ | ⟨hterm, -⟩ := hall
      exact absurd hterm (not_reads_of_barred hT hlet rfl)

/-- Where an expression is matched, the other forms of a statement are refused. -/
theorem refusesAll_forms_of_reads_expr (h : Reads T "expr" x y (.expr e)) :
    RefusesAll T frontEnd.rulebook forms x := by
  -- the words that lead the other forms are none that an expression begins with
  have hword : ∀ k ∈ [Keyword.after, .send, .create, .become, .throw],
      T.token? x ≠ some (.token (.keyword k)) := by
    intro k hk hx
    refine not_reads_of_barred hT hx ?_ h
    simp only [List.mem_cons, List.not_mem_nil, or_false] at hk
    rcases hk with rfl | rfl | rfl | rfl | rfl <;> rfl
  simp only [List.forall_mem_cons] at hword
  obtain ⟨hafter, hsend, hcreate, hbecome, hthrow, -⟩ := hword
  have hbinding : ∃ r, Derives T frontEnd.rulebook
      (.whole (.sequence [word .let, call "eqtn", .not (word .in)])) x (.refused r) := by
    by_cases hlet : T.token? x = some (.token (.keyword .let))
    · exact exists_refused_binding hT hlet h
    · exact exists_refused_word hlet
  have hsending : ∃ r, Derives T frontEnd.rulebook (.whole (.sequence
      [.optional (.sequence [word .after, call "expr"]), word .send, call "expr", word .to,
        call "expr"])) x (.refused r) := by
    obtain ⟨r, hr⟩ := Peg.exists_refused_terminal (R := frontEnd.rulebook) hsend
    exact ⟨r, (RefusesOne.tail (.optional_of_refused (exists_refused_word hafter))
      (.head hr)).sequence⟩
  exact .cons hbinding (.cons hsending (.cons (exists_refused_word hcreate)
    (.cons (exists_refused_word hbecome) (.cons (exists_refused_word hthrow) .nil))))

/-- **The statements that are expressions.** A statement is an expression if and only if the
expression is matched in its place. -/
theorem reads_stmt_iff_reads_expr :
    Reads T "stmt" x y (.stmt (.expr e)) ↔ Reads T "expr" x y (.expr e) := by
  constructor
  · intro h
    obtain ⟨v, hbody, hu⟩ := h.exists_body rfl rfl
    have hbody : Derives T frontEnd.rulebook (.whole (.choice (forms ++ [call "expr"]))) x
      (.matched y v) := hbody
    rcases hbody.choice_cases Verdict.matched_ne_broken with
      ⟨p, hp, _, _, ⟨⟩, hv, -⟩ | ⟨-, o', ho', halike⟩
    · -- what has another form is no expression
      obtain ⟨ps, rfl⟩ : ∃ ps, p = .sequence ps := by
        revert p
        simp [forms]
      obtain ⟨vs, rfl, -⟩ := hv.exists_matchesAll
      have hu : (statement "stmt" vs >>= fun s => pure (Node.stmt s)) =
        .ok (Node.stmt (.expr e)) := hu
      obtain ⟨s, hs, ⟨⟩⟩ := bind_eq_ok_iff.mp hu
      exact absurd hs statement_ne_expr
    · cases halike with
      | matched =>
        obtain ⟨n, -, hn⟩ := Reads.exists_body ho' rfl rfl
        obtain ⟨e', rfl⟩ := exists_expr_of_reduceExpr_eq_ok hn
        cases hu
        exact ho'
  · intro h
    have hchoice := (refusesAll_forms_of_reads_expr hT h).choice_next h []
    exact .of_body rfl rfl hchoice rfl

end Functional

end Statements

/-! ## Programs -/

section Programs

variable {x y : Place Node} {v : Node}

/-- Behind a place stands one place, or reading breaks off. -/
theorem next_unique (x : Place Node) (r r' : Except Peg.Break (Place Node))
    (h : (lazyTape frontEnd.rulebook).next x r) (h' : (lazyTape frontEnd.rulebook).next x r') :
    r' = r := by
  cases x with
  | token p v rest => exact Peg.Reads.unique h h'
  | finish | stalled => exact h.elim

/-- At the end of the input no statement begins. -/
theorem exists_refused_stmt (hend : y.token? = none) :
    ∃ r, Derives (lazyTape frontEnd.rulebook) frontEnd.rulebook (.whole (call "stmt")) y
      (.refused r) := by
  have hstmt : barred none ⟨grammarId, "stmt"⟩ = true := rfl
  exact Peg.exists_refused_rule (rulebook_bodyOf (w := frontEnd) rfl) hend hstmt

/-- **The programs of one statement.** At the end of the input no statement begins, so that a
program of one statement ends where that ends. -/
theorem reads_humus_iff_reads_stmt (hx : x.InOrder) (hend : y.token? = none) :
    Reads (lazyTape frontEnd.rulebook) "humus" x y (.list [v]) ↔
      Reads (lazyTape frontEnd.rulebook) "stmt" x y v := by
  constructor
  · intro h
    obtain ⟨u, hbody, hu⟩ := h.exists_body rfl rfl
    obtain ⟨vs, rfl, hall⟩ := hbody.exists_matchesAll
    obtain _ | @⟨_, _, _, z, _, _, _, hstmts, _ | ⟨hfinish, ⟨⟩⟩⟩ := hall
    cases hu
    obtain rfl : z = y := by
      cases hfinish
      rfl
    obtain ⟨vs, r, hvs, heq⟩ := Derives.zeroOrMore_iff.mp hstmts
    cases r with
    | error b => cases heq
    | ok z =>
    cases heq
    cases hvs with | next hstmt hlt hrest =>
    -- behind the statement there is no other
    cases hrest with
    | refused _ => exact hstmt
    | idle hidle hlt' =>
      obtain ⟨hx', -⟩ := hstmt.ahead hx trivial
      obtain rfl := (hidle.ahead hx' trivial).eq_or_lt.resolve_right hlt'
      obtain ⟨r, hr⟩ := exists_refused_stmt hend
      cases hidle.unique hr
  · intro h
    obtain ⟨r, hr⟩ := exists_refused_stmt hend
    have hlt : x.offset < y.offset := by
      refine (h.ahead hx trivial).eq_or_lt.resolve_left ?_
      rintro rfl
      cases h.unique hr
    have hstmts := Derives.zeroOrMore_iff.mpr ⟨[v], .ok y, .next h hlt (.refused hr), rfl⟩
    have hall : MatchesAll (lazyTape frontEnd.rulebook) frontEnd.rulebook
      [.zeroOrMore (call "stmt"), .finish] x [.list [v], .nothing] y :=
      .cons hstmts (.cons (.finish hend) .nil)
    exact .of_body rfl rfl hall.sequence rfl

end Programs

end Humus.Syntactic

namespace Humus

open Dispatch (Terminates)
open Peg (Cursor Derives MatchesAll Pattern Place Starts Verdict Walks lazyTape)
open Syntactic (Reads)
open Humus.Tree (Expr Stmt)

variable {source : String} {xs : List (Place Node)} {x : Place Node}
  (hwalks : Walks frontEnd.rulebook (tokenSource source) xs) (hx : xs[0]? = some x)
include hwalks hx

/-! ## Sources -/

/-- **What is read of a source is derived at its first token**, up to a place that is no stall. -/
theorem readPattern_eq_ok_iff {p : Pattern Node} {resume : String} {n : Node} :
    Terminates (fun fuel => readPattern fuel none p resume source) (· = .ok n) ↔
      ∃ y, Derives (lazyTape frontEnd.rulebook) frontEnd.rulebook (.whole p) x (.matched y n) ∧
        y.stall? = none := by
  constructor
  · rintro ⟨r, hr, N, hrun⟩
    cases readPattern_notices hwalks (hrun N le_rfl) with
    | @matched s w' chart x' y _ hx' _ hstop ho hstall =>
      cases hr
      obtain rfl := Option.some.inj (hx.symm.trans hx')
      refine ⟨y, ho, ?_⟩
      rw [Cursor.stall?_of_place? hstop, hstall]
      rfl
    | stalled | refused | halted | incomplete => cases hr
  · rintro ⟨y, ho, hstall⟩
    obtain ⟨chart, hw, hs⟩ := exists_chart_tokenStream source
    obtain ⟨x', hx', hreads⟩ := hwalks.exists_head
    obtain rfl := Option.some.inj (hx.symm.trans hx')
    have hstarts : Starts chart p 0
        (.ask (tokenStream source frontEnd).1 (Peg.matcher p 0)) (tokenSource source) := .ask hs
    have hparse := hstarts.terminates (w := (tokenStream source frontEnd).2) hw
      (Nat.lt_succ_self _) (.read hreads ho)
    apply hparse.bind
    rintro ⟨out, w'⟩ ⟨chart', hsays, -⟩
    cases hsays with
    | @matched start stop _ _ _ _ hstop =>
      have hstop : stop.stall? = none := by
        rw [Cursor.stall?_of_place? hstop] at hstall
        exact Option.map_eq_none_iff.mp hstall
      refine .of_eq (fun fuel => ?_) rfl
      simp only [hstop]
      rfl

/-- What a rule is read as over a whole source. -/
theorem readWhole_eq_ok_iff {name : String} (hname : name ∈ Syntactic.rules.map Prod.fst)
    {n : Node} :
    Terminates (fun fuel => readWhole fuel none name source) (· = .ok n) ↔
      ∃ q, Reads (lazyTape frontEnd.rulebook) name x (.finish q) n := by
  have hread := readPattern_terminates source (p := .sequence [Syntactic.call name, .finish]) rfl
    ⟨⟨rfl, hname⟩, trivial, trivial⟩ name hname
  refine hread.bind_iff.trans ?_
  constructor
  · rintro ⟨r, hr, hn⟩
    cases r with
    | error e => cases hn
    | ok m =>
      obtain ⟨y, ho, hstall⟩ := (readPattern_eq_ok_iff hwalks hx).mp hr
      obtain ⟨vs, rfl, hall⟩ := ho.exists_matchesAll
      obtain _ | ⟨hrule, _ | ⟨hfinish, ⟨⟩⟩⟩ := hall
      cases hn
      cases hfinish with | finish hend =>
      obtain ⟨q, rfl⟩ := Place.exists_finish hend hstall
      exact ⟨q, hrule⟩
  · rintro ⟨q, hrule⟩
    have hall : MatchesAll (lazyTape frontEnd.rulebook) frontEnd.rulebook
      [Syntactic.call name, .finish] x [n, .nothing] (.finish q) :=
      .cons hrule (.cons (.finish rfl) .nil)
    exact ⟨_, (readPattern_eq_ok_iff hwalks hx).mpr ⟨_, hall.sequence, rfl⟩, rfl⟩

theorem parseExpr_eq_ok_iff {e : Expr} :
    Terminates (fun fuel => parseExpr fuel none source) (· = .ok e) ↔
      ∃ q, Reads (lazyTape frontEnd.rulebook) "expr" x (.finish q) (.expr e) := by
  have hread := readWhole_terminates source "expr" (by decide)
  rw [← readWhole_eq_ok_iff hwalks hx (by decide)]
  refine hread.bind_iff.trans ?_
  constructor
  · rintro ⟨r, hr, hnext⟩
    rcases r with _ | n
    · cases hnext
    · cases n with
      | expr e => cases hnext; exact hr
      | _ => cases hnext
  · exact fun h => ⟨_, h, rfl⟩

theorem parseStmt_eq_ok_iff {t : Stmt} :
    Terminates (fun fuel => parseStmt fuel none source) (· = .ok t) ↔
      ∃ q, Reads (lazyTape frontEnd.rulebook) "stmt" x (.finish q) (.stmt t) := by
  have hread := readWhole_terminates source "stmt" (by decide)
  rw [← readWhole_eq_ok_iff hwalks hx (by decide)]
  refine hread.bind_iff.trans ?_
  constructor
  · rintro ⟨r, hr, hnext⟩
    rcases r with _ | n
    · cases hnext
    · cases n with
      | stmt s => cases hnext; exact hr
      | _ => cases hnext
  · exact fun h => ⟨_, h, rfl⟩

omit hwalks hx in
/-- Statements are made of their nodes. -/
theorem stmtsOf_map (ts : List Stmt) : stmtsOf (ts.map .stmt) = .ok ts := by
  induction ts with
  | nil => rfl
  | cons t ts ih =>
    rw [List.map_cons, stmtsOf, ih]
    rfl

theorem parseProgram_eq_ok_iff {ts : List Stmt} :
    Terminates (fun fuel => parseProgram fuel none source) (· = .ok ts) ↔
      ∃ q, Reads (lazyTape frontEnd.rulebook) "humus" x (.finish q) (.list (ts.map .stmt)) := by
  have hread := readPattern_terminates source (p := Syntactic.call "humus") rfl ⟨rfl, by decide⟩
    "stmt" (by decide)
  refine hread.bind_iff.trans ?_
  constructor
  · rintro ⟨r, hr, hnext⟩
    rcases r with _ | n
    · cases hnext
    · obtain ⟨y, ho, hstall⟩ := (readPattern_eq_ok_iff hwalks hx).mp hr
      obtain ⟨q, rfl⟩ := Place.exists_finish (end_of_program ho) hstall
      cases n with
      | list ns =>
        have hpasses := stmtsOf_passes ns
        rw [Option.some.inj hnext] at hpasses
        cases hpasses with | ok h =>
        cases h
        exact ⟨q, ho⟩
      | _ => cases hnext
  · rintro ⟨q, ho⟩
    refine ⟨_, (readPattern_eq_ok_iff hwalks hx).mpr ⟨_, ho, rfl⟩, ?_⟩
    exact congrArg some (stmtsOf_map ts)

omit hwalks hx in
/-- **The three ways to read a source agree.** A source is a statement if and only if it is the
program of that statement, and it is an expression if and only if it is the statement that evaluates
the expression. -/
theorem entries_agree (source : String) :
    (∀ t, Terminates (fun fuel => parseStmt fuel none source) (· = .ok t) ↔
      Terminates (fun fuel => parseProgram fuel none source) (· = .ok [t])) ∧
    ∀ e, Terminates (fun fuel => parseExpr fuel none source) (· = .ok e) ↔
      Terminates (fun fuel => parseStmt fuel none source) (· = .ok (.expr e)) := by
  obtain ⟨xs, hwalks, -⟩ := exists_walks_tokenSource source
  obtain ⟨x, hx, hreads⟩ := hwalks.exists_head
  have hinOrder : x.InOrder := hreads.inOrder trivial
  constructor
  · intro t
    rw [parseStmt_eq_ok_iff hwalks hx, parseProgram_eq_ok_iff hwalks hx]
    exact exists_congr fun q => (Syntactic.reads_humus_iff_reads_stmt hinOrder rfl).symm
  · intro e
    rw [parseExpr_eq_ok_iff hwalks hx, parseStmt_eq_ok_iff hwalks hx]
    exact exists_congr fun q => (Syntactic.reads_stmt_iff_reads_expr Syntactic.next_unique).symm

end Humus

import Humus.Proofs.Peg.Lists
import Humus.Proofs.Peg.Openings
import Humus.Proofs.Tree.Printing
import Humus.Proofs.Tree.Totality

/-!
# Parsing undoes printing

A printed tree is read back as the same tree, wherever it stands and whatever follows it that it
could not take in. What a part of a tree could take in is an argument, a tail behind a comma, a
further branch of a conditional, or the body of a `LET`.

## Main definitions

* `Reads T name x y v`: the rule matches from `x` to `y`, with the value `v`
* `Closes t`: the token `t` is none that a part of a printed tree could take in

## Main results

* `reads_expr`, `reads_stmts`, `reads_ptrn`, `reads_eqtn`: printed parts of a tree are read back
* `expr_of_tokens`: parsing the tokens of an expression comes to the expression
-/

namespace Humus.Syntactic

open Dispatch (Terminates)
open Peg (Derives MatchValue Pattern RuleRef Tape)
open Humus.Tree

/-! ## Rules -/

/-- The rules that cannot begin with the next token, as six calls of rules show. -/
def barred (t : Option Node) : RuleRef → Bool :=
  Peg.barsRule (bodyOf grammarId rules) t 6

section Rules

variable {C : Type} {T : Tape C Node} {x y z x₁ x₂ x₃ x₄ x₅ : C} {u v : Node} {t : Token}
  {name : String} {e e' : Expr} {p p' : Ptrn} {body : Pattern Node} {reduce : Reduction}

/-- The rule matches from `x` to `y`, with the value `v`. -/
def Reads (T : Tape C Node) (name : String) (x y : C) (v : Node) : Prop :=
  Derives T frontEnd.rulebook (.whole (call name)) x (.matched y v)

/-- A rule has the value that its reduction makes of that of its body. -/
theorem Reads.of_body (hbody : rules.lookup name = some body)
    (hreduction : reductions.lookup name = some reduce)
    (h : Derives T frontEnd.rulebook (.whole body) x (.matched y v)) (hu : reduce name v = .ok u) :
    Reads T name x y u :=
  rule_of_body rfl hbody hreduction h hu

/-- A rule that matches has a match of its body, and the value that its reduction makes of it. -/
theorem Reads.exists_body (h : Reads T name x y u) (hbody : rules.lookup name = some body)
    (hreduction : reductions.lookup name = some reduce) :
    ∃ v, Derives T frontEnd.rulebook (.whole body) x (.matched y v) ∧ reduce name v = .ok u :=
  exists_body_of_rule rfl hbody hreduction h

/-- A rule without a reduction has the value of its body. -/
theorem Reads.of_raw (hbody : rules.lookup name = some body)
    (hreduction : reductions.lookup name = none)
    (h : Derives T frontEnd.rulebook (.whole body) x (.matched y v)) : Reads T name x y v :=
  raw_rule_of_body rfl hbody hreduction h

/-- An alternative is chosen when the next token bars those before it. -/
theorem choose {t : Option Node} {ps : List (Pattern Node)} {q : Pattern Node}
    (hx : T.token? x = t) (k : Nat) (hk : ps[k]? = some q)
    (h : Pattern.barsChoice (barred t) t (ps.take k) = true)
    (hq : Derives T frontEnd.rulebook (.whole q) x (.matched y v)) :
    Derives T frontEnd.rulebook (.whole (.choice ps)) x (.matched y v) :=
  .choose (rulebook_bodyOf rfl) hx 6 k hk h hq

/-! ## Leaves -/

theorem reads_ident (h : T.Holds x (.token (.ident name)) y) : Reads T "ident" x y (.text name) :=
  .of_body rfl rfl (.predicate (.token h.token? rfl h.next)) rfl

theorem reads_constant (value : Constant) (h : T.Holds x (.token value.token) y) :
    Reads T "const" x y (.expr (.const value)) := by
  rcases value with _ | (_ | _) | _
  · exact .of_body rfl rfl (choose h.token? 7 rfl rfl h.terminal) rfl
  · exact .of_body rfl rfl (choose h.token? 9 rfl rfl h.terminal) rfl
  · exact .of_body rfl rfl (choose h.token? 8 rfl rfl h.terminal) rfl
  · exact .of_body rfl rfl (choose h.token? 10 rfl rfl h.terminal) rfl

theorem reads_literal (value : Literal) (h : T.Holds x (.token value.token) y) :
    Reads T "const" x y (.expr (.literal value)) := by
  have htoken {label test} (htest : test value.token = true) :
      Derives T frontEnd.rulebook (.whole (tokenClass label test)) x
        (.matched y (.token value.token)) :=
    .predicate (.token h.token? htest h.next)
  rcases value with s | n | c | s
  · exact .of_body rfl rfl (choose h.token? 3 rfl rfl (Reads.of_raw rfl rfl (htoken rfl))) rfl
  · exact .of_body rfl rfl (choose h.token? 4 rfl rfl (Reads.of_raw rfl rfl (htoken rfl))) rfl
  · exact .of_body rfl rfl (choose h.token? 5 rfl rfl (Reads.of_raw rfl rfl (htoken rfl))) rfl
  · exact .of_body rfl rfl (choose h.token? 6 rfl rfl (Reads.of_raw rfl rfl (htoken rfl))) rfl

theorem reads_self (h : T.Holds x (.token (.keyword .self)) y) :
    Reads T "const" x y (.expr .self) :=
  .of_body rfl rfl (choose h.token? 1 rfl rfl h.terminal) rfl

/-! ## Terms -/

/-- The token is none that a part of a printed tree could take in when it follows the part. -/
def Closes (t : Option Node) : Prop :=
  ∀ v ∈ [Node.token (.punct '('), .token (.punct ','), .token (.keyword .elif),
    .token (.keyword .else), .token (.keyword .in)], t ≠ some v

instance (t : Option Node) : Decidable (Closes t) :=
  inferInstanceAs (Decidable (∀ v ∈ _, t ≠ some v))

theorem Closes.of_holds (h : T.Holds x v y) (hv : Closes (some v)) : Closes (T.token? x) :=
  h.token? ▸ hv

/-- Where no parenthesis opens, there is no argument. -/
theorem argument_missing (hx : T.token? x ≠ some (.token (.punct '('))) :
    Derives T frontEnd.rulebook (.whole (.optional argument)) x (.matched x (.list [])) :=
  .optional_of_refused (Peg.exists_refused_sequence (Peg.exists_refused_terminal hx))

/-- An argument. -/
theorem argument_reads (hopen : T.Holds x (.token (.punct '(')) x₁)
    (hexpr : Reads T "expr" x₁ x₂ (.expr e)) (hclose : T.Holds x₂ (.token (.punct ')')) y) :
    Derives T frontEnd.rulebook (.whole (.optional argument)) x
      (.matched y (.list [.list [.token (.punct '('), .list [.expr e], .token (.punct ')')]])) :=
  .optional (.sequence (.itemsNext hopen.terminal (.itemsNext (.optional hexpr)
    (.itemsNext hclose.terminal .itemsDone))))

theorem reads_call_ident (h : T.Holds x (.token (.ident name)) y)
    (hy : T.token? y ≠ some (.token (.punct '('))) :
    Reads T "call" x y (.expr (.ident name)) :=
  .of_body rfl rfl (choose h.token? 0 rfl rfl (.sequence (.itemsNext (reads_ident h)
    (.itemsNext (argument_missing hy) .itemsDone)))) rfl

/-- An expression in parentheses, with what is read behind it as an argument. -/
theorem reads_call_parens (hopen : T.Holds x (.token (.punct '(')) x₁)
    (hexpr : Reads T "expr" x₁ x₂ (.expr e)) (hclose : T.Holds x₂ (.token (.punct ')')) x₃)
    (harg : Derives T frontEnd.rulebook (.whole (.optional argument)) x₃ (.matched y v))
    (hu : application "call" e v = .ok u) : Reads T "call" x y u :=
  .of_body rfl rfl (choose hopen.token? 1 rfl rfl (.sequence (.itemsNext hopen.terminal (.itemsNext
    (.choice (.alternativesStop (.sequence (.itemsNext hexpr (.itemsNext hclose.terminal
      (.itemsNext harg .itemsDone)))) rfl)) .itemsDone)))) hu

/-- A group: an expression in parentheses that is not applied. -/
theorem reads_call_group (hopen : T.Holds x (.token (.punct '(')) x₁)
    (hexpr : Reads T "expr" x₁ x₂ (.expr e)) (hclose : T.Holds x₂ (.token (.punct ')')) y)
    (hy : T.token? y ≠ some (.token (.punct '('))) : Reads T "call" x y (.expr e) :=
  reads_call_parens hopen hexpr hclose (argument_missing hy) rfl

theorem reads_term_of_call {t : Option Node} (hx : T.token? x = t)
    (hbars : Pattern.barsChoice (barred t) t
      [.sequence [word .new, call "term"], call "const"] = true)
    (h : Reads T "call" x y (.expr e)) : Reads T "term" x y (.expr e) :=
  .of_body rfl rfl (choose hx 2 rfl hbars h) rfl

theorem reads_term_of_const {t : Option Node} (hx : T.token? x = t)
    (hbars : Pattern.barsChoice (barred t) t
      [.sequence [word .new, call "term"]] = true)
    (h : Reads T "const" x y (.expr e)) : Reads T "term" x y (.expr e) :=
  .of_body rfl rfl (choose hx 1 rfl hbars h) rfl

/-- A group is a term. -/
theorem reads_term_group (hopen : T.Holds x (.token (.punct '(')) x₁)
    (hexpr : Reads T "expr" x₁ x₂ (.expr e)) (hclose : T.Holds x₂ (.token (.punct ')')) y)
    (hy : T.token? y ≠ some (.token (.punct '('))) : Reads T "term" x y (.expr e) :=
  reads_term_of_call hopen.token? rfl (reads_call_group hopen hexpr hclose hy)

/-! ## Expressions -/

/-- The words with which an expression begins that does not begin with a term. -/
def leadingWords : List (Pattern Node) := [word .let, word .if, word .case]

/-- An expression that begins with a term. -/
theorem reads_expr_of_items {t : Option Node} (hx : T.token? x = t)
    (hbars : Pattern.barsChoice (barred t) t leadingWords = true)
    (h : Derives T frontEnd.rulebook
      (.whole (.sequence [call "term", .optional (.sequence [punct ',', call "expr"])])) x
      (.matched y v)) (hu : reduceExpr "expr" v = .ok u) : Reads T "expr" x y u := by
  obtain ⟨hlet, hif, hcase⟩ : (word .let).bars (barred t) t = true ∧
      (word .if).bars (barred t) t = true ∧ (word .case).bars (barred t) t = true := by
    simpa [leadingWords, Pattern.barsChoice] using hbars
  refine .of_body rfl rfl (choose hx 3 rfl ?_ h) hu
  show Pattern.barsChoice _ _ [_, _, _] = true
  simp only [Pattern.barsChoice, Pattern.bars_sequence hlet, Pattern.bars_sequence hif,
    Pattern.bars_sequence hcase, Bool.and_true]

/-- Where no comma stands, there is no tail. -/
theorem tail_missing {q : Pattern Node} (hx : T.token? x ≠ some (.token (.punct ','))) :
    Derives T frontEnd.rulebook (.whole (.optional (.sequence [punct ',', q]))) x
      (.matched x (.list [])) :=
  .optional_of_refused (Peg.exists_refused_sequence (Peg.exists_refused_terminal hx))

/-- A term without a tail. -/
theorem reads_expr_of_term {t : Option Node} (hx : T.token? x = t)
    (hbars : Pattern.barsChoice (barred t) t leadingWords = true)
    (hterm : Reads T "term" x y (.expr e)) (hy : T.token? y ≠ some (.token (.punct ','))) :
    Reads T "expr" x y (.expr e) :=
  reads_expr_of_items hx hbars
    (.sequence (.itemsNext hterm (.itemsNext (tail_missing hy) .itemsDone))) rfl

/-- A term with a tail behind a comma. -/
theorem reads_expr_of_pair {t : Option Node} (hx : T.token? x = t)
    (hbars : Pattern.barsChoice (barred t) t leadingWords = true)
    (hterm : Reads T "term" x x₁ (.expr e)) (hcomma : T.Holds x₁ (.token (.punct ',')) x₂)
    (htail : Reads T "expr" x₂ y (.expr e')) : Reads T "expr" x y (.expr (.pair e e')) :=
  reads_expr_of_items hx hbars (.sequence (.itemsNext hterm (.itemsNext (.optional (.sequence
    (.itemsNext hcomma.terminal (.itemsNext htail .itemsDone)))) .itemsDone))) rfl

/-- A leaf is an expression. -/
theorem reads_expr_of_const {t : Option Node} (hx : T.token? x = t)
    (hwords : Pattern.barsChoice (barred t) t leadingWords = true)
    (hnew : Pattern.barsChoice (barred t) t
      [.sequence [word .new, call "term"]] = true)
    (h : Reads T "const" x y (.expr e)) (hy : Closes (T.token? y)) : Reads T "expr" x y (.expr e) :=
  reads_expr_of_term hx hwords (reads_term_of_const hx hnew h) (hy _ (by decide))

/-- A group is an expression. -/
theorem reads_expr_group (hopen : T.Holds x (.token (.punct '(')) x₁)
    (hexpr : Reads T "expr" x₁ x₂ (.expr e)) (hclose : T.Holds x₂ (.token (.punct ')')) y)
    (hparen : T.token? y ≠ some (.token (.punct '(')))
    (hcomma : T.token? y ≠ some (.token (.punct ','))) : Reads T "expr" x y (.expr e) :=
  reads_expr_of_term hopen.token? rfl (reads_term_group hopen hexpr hclose hparen) hcomma

/-! ## Patterns -/

/-- A pattern without a tail. -/
theorem reads_ptrn_of_pterm (h : Reads T "pterm" x y (.ptrn p))
    (hy : T.token? y ≠ some (.token (.punct ','))) : Reads T "ptrn" x y (.ptrn p) :=
  .of_body rfl rfl (.sequence (.itemsNext h (.itemsNext (tail_missing hy) .itemsDone))) rfl

/-- A pattern in parentheses. -/
theorem reads_pterm_group (hopen : T.Holds x (.token (.punct '(')) x₁)
    (hptrn : Reads T "ptrn" x₁ x₂ (.ptrn p)) (hclose : T.Holds x₂ (.token (.punct ')')) y) :
    Reads T "pterm" x y (.ptrn p) :=
  .of_body rfl rfl (choose hopen.token? 2 rfl rfl (.sequence (.itemsNext hopen.terminal
    (.itemsNext (.optional hptrn) (.itemsNext hclose.terminal .itemsDone))))) rfl

/-- A pattern that is a leaf. -/
theorem reads_pterm_of_const {t : Option Node} (hx : T.token? x = t)
    (hbars : Pattern.barsChoice (barred t) t
      [word .any, punct '$', punct '('] = true)
    (h : Reads T "const" x y (.expr e)) (hu : constPtrn e = p) : Reads T "pterm" x y (.ptrn p) := by
  obtain ⟨hany, hdollar, hparen⟩ : (word .any).bars (barred t) t = true ∧
      (punct '$').bars (barred t) t = true ∧ (punct '(').bars (barred t) t = true := by
    simpa [Pattern.barsChoice] using hbars
  refine .of_body rfl rfl (choose hx 3 rfl ?_ h) (by rw [← hu]; rfl)
  show Pattern.barsChoice _ _ [_, _, _] = true
  simp only [Pattern.barsChoice, hany, Pattern.bars_sequence hdollar, Pattern.bars_sequence hparen,
    Bool.and_true]

/-- The tokens of a group. -/
theorem row_inParens {ts : List Token} :
    T.Row x ((inParens ts).map .token) y ↔ ∃ x₁ x₂, T.Holds x (.token (.punct '(')) x₁ ∧
      T.Row x₁ (ts.map .token) x₂ ∧ T.Holds x₂ (.token (.punct ')')) y := by
  simp [inParens]

end Rules

/-- A block has the statements that stand between its brackets. -/
theorem reduceBlock_stmts (rule : String) (stmts : List Stmt) (opening closing : Node) :
    reduceBlock rule (.list [opening, .list (stmts.map .stmt), closing]) =
      .ok (.expr (.block stmts)) := by
  have hstmts : (stmts.map Node.stmt).mapM (stmtOf rule) = .ok stmts := by
    induction stmts with
    | nil => rfl
    | cons stmt stmts ih =>
      rw [List.map_cons, List.mapM_cons, ih]
      rfl
  show (do return Node.expr (.block (← (stmts.map Node.stmt).mapM (stmtOf rule)))) = _
  rw [hstmts]
  rfl

/-! ## Trees -/

section Trees

variable {C : Type} {T : Tape C Node}

/-- The tokens of statements that stand behind a statement close it. -/
theorem closes_of_stmts {stmts : List Stmt} (h : Stmt.AllPlain stmts) {x y : C}
    (hrow : T.Row x ((Stmt.tokensOfAll stmts).map .token) y)
    (hy : T.token? y = some (.token (.punct ']'))) : Closes (T.token? x) := by
  rcases stmts with _ | ⟨stmt, stmts⟩
  · obtain rfl := Tape.row_nil.mp hrow
    rw [hy]
    decide
  · rcases stmt with _ | _ | _ | _ | _ | _ | _
    · exact h.1.elim
    all_goals
      obtain ⟨z, hz, -⟩ := Tape.row_cons.mp hrow
      rw [hz.token?]
      decide

theorem Stmt.tokens_ne_nil {stmt : Stmt} (h : stmt.Plain) : stmt.tokens.map Node.token ≠ [] := by
  rcases stmt with _ | _ | _ | _ | _ | _ | _
  · exact h.elim
  all_goals exact List.cons_ne_nil _ _

/-- The second branch of a conditional as a node. -/
def elseNode : Option Expr → Node
  | none => .list []
  | some next => .list [.list [.token (.keyword .else), .expr next]]

/-- The tokens of a second branch, or what follows a conditional without one. -/
theorem else_begins {next : Option Expr} {x y : C}
    (h : T.Row x ((Expr.tokensOfElse next).map .token) y) (hy : Closes (T.token? y)) :
    ∀ v ∈ [Node.token (.punct '('), .token (.punct ','), .token (.keyword .elif)],
      T.token? x ≠ some v := by
  rcases next with _ | next
  · obtain rfl := Tape.row_nil.mp h
    intro v hv
    apply hy
    revert v
    decide
  · obtain ⟨z, hz, -⟩ := Tape.row_cons.mp h
    rw [hz.token?]
    decide

mutual

/-- **A printed expression is read back.** -/
theorem reads_expr : (e : Expr) → e.Plain → ∀ {x y : C}, T.Row x (e.tokens.map .token) y →
    Closes (T.token? y) → Reads T "expr" x y (.expr e)
  | .pair head tail, h, x, y, hrow, hy => by
    simp only [Expr.tokens, List.map_append, List.map_cons, Tape.row_append, Tape.row_cons,
      row_inParens] at hrow
    obtain ⟨x₃, ⟨x₁, x₂, hopen, hhead, hclose⟩, x₄, hcomma, htail⟩ := hrow
    have hhead := reads_expr head h.1 hhead (.of_holds hclose (by decide))
    have hparen : T.token? x₃ ≠ some (.token (.punct '(')) := by
      rw [hcomma.token?]
      decide
    have hterm := reads_term_group hopen hhead hclose hparen
    exact reads_expr_of_pair hopen.token? rfl hterm hcomma (reads_expr tail h.2 htail hy)
  | .letIn eqtn body, h, x, y, hrow, hy => by
    simp only [Expr.tokens, List.map_append, List.map_cons, Tape.row_append,
      Tape.row_cons] at hrow
    obtain ⟨x₁, hlet, x₂, heqtn, x₃, hin, hbody⟩ := hrow
    have hcomma : T.token? x₂ ≠ some (.token (.punct ',')) := by
      rw [hin.token?]
      decide
    have heqtn := reads_eqtn eqtn h.1 heqtn hcomma
    have hbody := reads_expr body h.2 hbody hy
    exact .of_body rfl rfl (choose hlet.token? 0 rfl rfl (.sequence (.itemsNext hlet.terminal
      (.itemsNext heqtn (.itemsNext hin.terminal (.itemsNext hbody .itemsDone)))))) rfl
  | .cond eqtn body next, h, x, y, hrow, hy => by
    simp only [Expr.tokens, List.map_append, List.map_cons, Tape.row_append, Tape.row_cons,
      row_inParens] at hrow
    obtain ⟨x₁, hif, x₂, heqtn, x₅, ⟨x₃, x₄, hopen, hbody, hclose⟩, hnext⟩ := hrow
    have hcomma : T.token? x₂ ≠ some (.token (.punct ',')) := by
      rw [hopen.token?]
      decide
    have heqtn := reads_eqtn eqtn h.1 heqtn hcomma
    have hbody := reads_expr body h.2.1 hbody (.of_holds hclose (by decide))
    have hbegins := else_begins hnext hy
    have hbody := reads_expr_group hopen hbody hclose (hbegins _ (by decide))
      (hbegins _ (by decide))
    -- no further branch is printed, so that none is read
    have helifs : Derives T frontEnd.rulebook
        (.whole (.zeroOrMore (.sequence [word .elif, call "eqtn", call "expr"]))) x₅
        (.matched x₅ (.list [])) :=
      .zeroOrMore_of_refused (Peg.exists_refused_sequence
        (Peg.exists_refused_terminal (hbegins _ (by decide))))
    have hnext := reads_else next h.2.2 hnext hy
    refine .of_body rfl rfl (choose hif.token? 1 rfl rfl (.sequence (.itemsNext hif.terminal
      (.itemsNext heqtn (.itemsNext hbody (.itemsNext helifs (.itemsNext hnext .itemsDone)))))))
      ?_
    rcases next with _ | next <;> rfl
  | .case _ _, h, _, _, _, _ => h.elim
  | .new e, h, x, y, hrow, hy => by
    simp only [Expr.tokens, List.map_cons, Tape.row_cons, row_inParens] at hrow
    obtain ⟨x₁, hnew, x₂, x₃, hopen, he, hclose⟩ := hrow
    have he := reads_expr e h he (.of_holds hclose (by decide))
    have hgroup := reads_term_group hopen he hclose (hy _ (by decide))
    have hterm : Reads T "term" x y (.expr (.new e)) :=
      .of_body rfl rfl (choose hnew.token? 0 rfl rfl (.sequence (.itemsNext hnew.terminal
        (.itemsNext hgroup .itemsDone)))) rfl
    exact reads_expr_of_term hnew.token? rfl hterm (hy _ (by decide))
  | .app abs arg, h, x, y, hrow, hy => by
    simp only [Expr.tokens, List.map_append, Tape.row_append, row_inParens] at hrow
    obtain ⟨x₃, ⟨x₁, x₂, hopen, habs, hclose⟩, x₄, x₅, hopen', harg, hclose'⟩ := hrow
    have habs := reads_expr abs h.1 habs (.of_holds hclose (by decide))
    have harg := reads_expr arg h.2 harg (.of_holds hclose' (by decide))
    have hcall := reads_call_parens hopen habs hclose (argument_reads hopen' harg hclose') rfl
    exact reads_expr_of_term hopen.token? rfl (reads_term_of_call hopen.token? rfl hcall)
      (hy _ (by decide))
  | .ident name, _, x, y, hrow, hy => by
    simp only [Expr.tokens, List.map_cons, List.map_nil, Tape.row_cons, Tape.row_nil] at hrow
    obtain ⟨_, hident, rfl⟩ := hrow
    have hcall := reads_call_ident hident (hy _ (by decide))
    exact reads_expr_of_term hident.token? rfl (reads_term_of_call hident.token? rfl hcall)
      (hy _ (by decide))
  | .block stmts, h, x, y, hrow, hy => by
    simp only [Expr.tokens, List.map_append, List.map_cons, List.map_nil, Tape.row_append,
      Tape.row_cons, Tape.row_nil] at hrow
    obtain ⟨x₁, hopen, x₂, hstmts, y, hclose, rfl⟩ := hrow
    have hstmts := reads_stmts stmts h hstmts hclose.token? []
    have hblock : Reads T "block" x y (.expr (.block stmts)) :=
      .of_body rfl rfl (.sequence (.itemsNext hopen.terminal (.itemsNext
        (.zeroOrMore hstmts) (.itemsNext hclose.terminal .itemsDone))))
        (reduceBlock_stmts _ stmts _ _)
    have hconst : Reads T "const" x y (.expr (.block stmts)) :=
      .of_body rfl rfl (choose hopen.token? 0 rfl rfl hblock) rfl
    exact reads_expr_of_const hopen.token? rfl rfl hconst hy
  | .self, _, x, y, hrow, hy => by
    simp only [Expr.tokens, List.map_cons, List.map_nil, Tape.row_cons, Tape.row_nil] at hrow
    obtain ⟨_, hself, rfl⟩ := hrow
    exact reads_expr_of_const hself.token? rfl rfl (reads_self hself) hy
  | .abs ptrn body, h, x, y, hrow, hy => by
    simp only [Expr.tokens, List.map_append, List.map_cons, Tape.row_append, Tape.row_cons,
      row_inParens] at hrow
    obtain ⟨x₁, hslash, x₄, ⟨x₂, x₃, hopen, hptrn, hclose⟩, x₅, hdot, hbody⟩ := hrow
    have hptrn := reads_ptrn ptrn h.1 hptrn (.of_holds hclose (by decide))
    have hcomma : T.token? x₄ ≠ some (.token (.punct ',')) := by
      rw [hdot.token?]
      decide
    have hptrn := reads_ptrn_of_pterm (reads_pterm_group hopen hptrn hclose) hcomma
    have hbody := reads_expr body h.2 hbody hy
    have hconst : Reads T "const" x y (.expr (.abs ptrn body)) :=
      .of_body rfl rfl (choose hslash.token? 2 rfl rfl (.sequence (.itemsNext hslash.terminal
        (.itemsNext hptrn (.itemsNext hdot.terminal (.itemsNext hbody .itemsDone)))))) rfl
    exact reads_expr_of_const hslash.token? rfl rfl hconst hy
  | .const value, _, x, y, hrow, hy => by
    simp only [Expr.tokens, List.map_cons, List.map_nil, Tape.row_cons, Tape.row_nil] at hrow
    obtain ⟨_, hvalue, rfl⟩ := hrow
    have hconst := reads_constant value hvalue
    rcases value with _ | (_ | _) | _ <;>
      exact reads_expr_of_const hvalue.token? rfl rfl hconst hy
  | .literal value, _, x, y, hrow, hy => by
    simp only [Expr.tokens, List.map_cons, List.map_nil, Tape.row_cons, Tape.row_nil] at hrow
    obtain ⟨_, hvalue, rfl⟩ := hrow
    have hconst := reads_literal value hvalue
    rcases value with s | n | c | s <;>
      exact reads_expr_of_const hvalue.token? rfl rfl hconst hy

/-- A printed second branch is read back. -/
theorem reads_else : (next : Option Expr) → Expr.PlainElse next → ∀ {x y : C},
    T.Row x ((Expr.tokensOfElse next).map .token) y → Closes (T.token? y) →
    Derives T frontEnd.rulebook (.whole (.optional (.sequence [word .else, call "expr"]))) x
      (.matched y (elseNode next))
  | none, _, x, y, hrow, hy => by
    obtain rfl := Tape.row_nil.mp hrow
    exact .optional_of_refused (Peg.exists_refused_sequence
      (Peg.exists_refused_terminal (hy _ (by decide))))
  | some next, h, x, y, hrow, hy => by
    simp only [Expr.tokensOfElse, List.map_cons, Tape.row_cons] at hrow
    obtain ⟨x₁, helse, hnext⟩ := hrow
    exact .optional (.sequence (.itemsNext helse.terminal
      (.itemsNext (reads_expr next h hnext hy) .itemsDone)))

/-- A printed statement is read back. -/
theorem reads_stmt : (s : Stmt) → s.Plain → ∀ {x y : C}, T.Row x (s.tokens.map .token) y →
    Closes (T.token? y) → Reads T "stmt" x y (.stmt s)
  | .expr _, h, _, _, _, _ => h.elim
  | .bind eqtn, h, x, y, hrow, hy => by
    simp only [Stmt.tokens, List.map_cons, Tape.row_cons] at hrow
    obtain ⟨x₁, hlet, heqtn⟩ := hrow
    have heqtn := reads_eqtn eqtn h heqtn (hy _ (by decide))
    obtain ⟨r, hin⟩ := Peg.exists_refused_terminal (R := frontEnd.rulebook)
      (hy (.token (.keyword .in)) (by decide))
    exact .of_body rfl rfl (choose hlet.token? 0 rfl rfl (.sequence (.itemsNext hlet.terminal
      (.itemsNext heqtn (.itemsNext (.not hin) .itemsDone))))) rfl
  | .send msg recipient, h, x, y, hrow, hy => by
    simp only [Stmt.tokens, List.map_append, List.map_cons, Tape.row_append,
      Tape.row_cons] at hrow
    obtain ⟨x₁, hsend, x₂, hmsg, x₃, hto, hrecipient⟩ := hrow
    have hmsg := reads_expr msg h.1 hmsg (.of_holds hto (by decide))
    have hrecipient := reads_expr recipient h.2 hrecipient hy
    have hafter : T.token? x ≠ some (.token (.keyword .after)) := by
      rw [hsend.token?]
      decide
    -- no delay is printed
    have hnow : Derives T frontEnd.rulebook
        (.whole (.optional (.sequence [word .after, call "expr"]))) x (.matched x (.list [])) :=
      .optional_of_refused (Peg.exists_refused_sequence (Peg.exists_refused_terminal hafter))
    exact .of_body rfl rfl (choose hsend.token? 1 rfl rfl (.sequence (.itemsNext hnow
      (.itemsNext hsend.terminal (.itemsNext hmsg (.itemsNext hto.terminal
        (.itemsNext hrecipient .itemsDone))))))) rfl
  | .afterSend delay msg recipient, h, x, y, hrow, hy => by
    simp only [Stmt.tokens, List.map_append, List.map_cons, Tape.row_append,
      Tape.row_cons] at hrow
    obtain ⟨x₁, hafter, x₂, hdelay, x₃, hsend, x₄, hmsg, x₅, hto, hrecipient⟩ := hrow
    have hdelay := reads_expr delay h.1 hdelay (.of_holds hsend (by decide))
    have hmsg := reads_expr msg h.2.1 hmsg (.of_holds hto (by decide))
    have hrecipient := reads_expr recipient h.2.2 hrecipient hy
    exact .of_body rfl rfl (choose hafter.token? 1 rfl rfl (.sequence (.itemsNext
      (.optional (.sequence (.itemsNext hafter.terminal (.itemsNext hdelay .itemsDone))))
      (.itemsNext hsend.terminal (.itemsNext hmsg (.itemsNext hto.terminal
        (.itemsNext hrecipient .itemsDone))))))) rfl
  | .create name e, h, x, y, hrow, hy => by
    simp only [Stmt.tokens, List.map_cons, Tape.row_cons] at hrow
    obtain ⟨x₁, hcreate, x₂, hname, x₃, hwith, he⟩ := hrow
    have he := reads_expr e h he hy
    exact .of_body rfl rfl (choose hcreate.token? 2 rfl rfl (.sequence
      (.itemsNext hcreate.terminal (.itemsNext (reads_ident hname)
        (.itemsNext hwith.terminal (.itemsNext he .itemsDone)))))) rfl
  | .become e, h, x, y, hrow, hy => by
    simp only [Stmt.tokens, List.map_cons, Tape.row_cons] at hrow
    obtain ⟨x₁, hbecome, he⟩ := hrow
    exact .of_body rfl rfl (choose hbecome.token? 3 rfl rfl (.sequence
      (.itemsNext hbecome.terminal (.itemsNext (reads_expr e h he hy) .itemsDone)))) rfl
  | .throw e, h, x, y, hrow, hy => by
    simp only [Stmt.tokens, List.map_cons, Tape.row_cons] at hrow
    obtain ⟨x₁, hthrow, he⟩ := hrow
    exact .of_body rfl rfl (choose hthrow.token? 4 rfl rfl (.sequence
      (.itemsNext hthrow.terminal (.itemsNext (reads_expr e h he hy) .itemsDone)))) rfl

/-- Printed statements are read back, one after the other, up to the end of their block. -/
theorem reads_stmts : (stmts : List Stmt) → Stmt.AllPlain stmts → ∀ {x y : C},
    T.Row x ((Stmt.tokensOfAll stmts).map .token) y →
    T.token? y = some (.token (.punct ']')) → ∀ values,
    Derives T frontEnd.rulebook (.again (call "stmt") false values) x
      (.matched y (.list (values.reverse ++ stmts.map .stmt)))
  | [], _, x, y, hrow, hy, values => by
    obtain rfl := Tape.row_nil.mp hrow
    have hstmt : barred (some (.token (.punct ']'))) ⟨grammarId, "stmt"⟩ = true := rfl
    obtain ⟨r, hr⟩ := Peg.exists_refused_rule (rulebook_bodyOf (w := frontEnd) rfl) hy hstmt
    rw [List.map_nil, List.append_nil]
    exact .againStop hr rfl
  | stmt :: stmts, h, x, y, hrow, hy, values => by
    simp only [Stmt.tokensOfAll, List.map_append, Tape.row_append] at hrow
    obtain ⟨x₁, hstmt, hstmts⟩ := hrow
    have hlt := hstmt.offset_lt (Stmt.tokens_ne_nil h.1)
    have hstmt := reads_stmt stmt h.1 hstmt (closes_of_stmts h.2 hstmts hy)
    have hrest := reads_stmts stmts h.2 hstmts hy (.stmt stmt :: values)
    rw [List.reverse_cons, List.append_assoc] at hrest
    exact .againNext hstmt hlt hrest

/-- A printed pattern is read back. -/
theorem reads_ptrn : (p : Ptrn) → p.Plain → ∀ {x y : C}, T.Row x (p.tokens.map .token) y →
    Closes (T.token? y) → Reads T "ptrn" x y (.ptrn p)
  | .pair head tail, h, x, y, hrow, hy => by
    simp only [Ptrn.tokens, List.map_append, List.map_cons, Tape.row_append, Tape.row_cons,
      row_inParens] at hrow
    obtain ⟨x₃, ⟨x₁, x₂, hopen, hhead, hclose⟩, x₄, hcomma, htail⟩ := hrow
    have hhead := reads_ptrn head h.1 hhead (.of_holds hclose (by decide))
    have htail := reads_ptrn tail h.2 htail hy
    exact .of_body rfl rfl (.sequence (.itemsNext (reads_pterm_group hopen hhead hclose)
      (.itemsNext (.optional (.sequence (.itemsNext hcomma.terminal
        (.itemsNext htail .itemsDone)))) .itemsDone))) rfl
  | .any, _, x, y, hrow, hy => by
    simp only [Ptrn.tokens, List.map_cons, List.map_nil, Tape.row_cons, Tape.row_nil] at hrow
    obtain ⟨_, hany, rfl⟩ := hrow
    have hpterm : Reads T "pterm" x _ (.ptrn .any) :=
      .of_body rfl rfl (choose hany.token? 0 rfl rfl hany.terminal) rfl
    exact reads_ptrn_of_pterm hpterm (hy _ (by decide))
  | .value e, h, x, y, hrow, hy => by
    simp only [Ptrn.tokens, List.map_cons, Tape.row_cons, row_inParens] at hrow
    obtain ⟨x₁, hdollar, x₂, x₃, hopen, he, hclose⟩ := hrow
    have he := reads_expr e h he (.of_holds hclose (by decide))
    have hterm := reads_term_group hopen he hclose (hy _ (by decide))
    have hpterm : Reads T "pterm" x y (.ptrn (.value e)) :=
      .of_body rfl rfl (choose hdollar.token? 1 rfl rfl (.sequence
        (.itemsNext hdollar.terminal (.itemsNext hterm .itemsDone)))) rfl
    exact reads_ptrn_of_pterm hpterm (hy _ (by decide))
  | .ident name, _, x, y, hrow, hy => by
    simp only [Ptrn.tokens, List.map_cons, List.map_nil, Tape.row_cons, Tape.row_nil] at hrow
    obtain ⟨_, hident, rfl⟩ := hrow
    have hpterm : Reads T "pterm" x _ (.ptrn (.ident name)) :=
      .of_body rfl rfl (choose hident.token? 4 rfl rfl (reads_ident hident)) rfl
    exact reads_ptrn_of_pterm hpterm (hy _ (by decide))
  | .self, _, x, y, hrow, hy => by
    simp only [Ptrn.tokens, List.map_cons, List.map_nil, Tape.row_cons, Tape.row_nil] at hrow
    obtain ⟨_, hself, rfl⟩ := hrow
    have hpterm := reads_pterm_of_const hself.token? rfl (reads_self hself) rfl
    exact reads_ptrn_of_pterm hpterm (hy _ (by decide))
  | .const value, _, x, y, hrow, hy => by
    simp only [Ptrn.tokens, List.map_cons, List.map_nil, Tape.row_cons, Tape.row_nil] at hrow
    obtain ⟨_, hvalue, rfl⟩ := hrow
    have hconst := reads_constant value hvalue
    rcases value with _ | (_ | _) | _ <;>
      exact reads_ptrn_of_pterm (reads_pterm_of_const hvalue.token? rfl hconst rfl)
        (hy _ (by decide))
  | .literal value, _, x, y, hrow, hy => by
    simp only [Ptrn.tokens, List.map_cons, List.map_nil, Tape.row_cons, Tape.row_nil] at hrow
    obtain ⟨_, hvalue, rfl⟩ := hrow
    have hconst := reads_literal value hvalue
    rcases value with s | n | c | s <;>
      exact reads_ptrn_of_pterm (reads_pterm_of_const hvalue.token? rfl hconst rfl)
        (hy _ (by decide))

/-- A printed equation is read back. -/
theorem reads_eqtn : (q : Eqtn) → q.Plain → ∀ {x y : C}, T.Row x (q.tokens.map .token) y →
    T.token? y ≠ some (.token (.punct ',')) → Reads T "eqtn" x y (.eqtn q)
  | .mk left right, h, x, y, hrow, hy => by
    simp only [Eqtn.tokens, List.map_append, List.map_cons, Tape.row_append, Tape.row_cons,
      row_inParens] at hrow
    obtain ⟨x₃, ⟨x₁, x₂, hopen, hleft, hclose⟩, x₄, hequals, hrow⟩ := hrow
    obtain ⟨x₅, x₆, hopen', hright, hclose'⟩ := hrow
    have hleft := reads_ptrn left h.1 hleft (.of_holds hclose (by decide))
    have hcomma : T.token? x₃ ≠ some (.token (.punct ',')) := by
      rw [hequals.token?]
      decide
    have hleft := reads_ptrn_of_pterm (reads_pterm_group hopen hleft hclose) hcomma
    have hright := reads_ptrn right h.2 hright (.of_holds hclose' (by decide))
    have hright := reads_ptrn_of_pterm (reads_pterm_group hopen' hright hclose') hy
    exact .of_body rfl rfl (choose hopen.token? 1 rfl rfl (.sequence (.itemsNext hleft
      (.itemsNext hequals.terminal (.itemsNext hright .itemsDone))))) rfl

end

end Trees

/-- **Parsing undoes printing.** Every expression without case distinctions and without expressions
as statements is read back from its tokens: matching `expr` succeeds, consumes all of them, and has
the expression as its value. -/
theorem expr_of_tokens (e : Expr) (h : e.Plain) :
    Terminates (fun fuel =>
      Peg.parse fuel none (call "expr") (.ofList (e.tokens.map .token)) frontEnd) fun r =>
        ∃ s, r.1 = .ok s ∧ s.start.offset = 0 ∧ s.stop.offset = e.tokens.length ∧
          s.value = .expr e := by
  have hrow := Peg.row_items [] (e.tokens.map Node.token)
  rw [List.nil_append, List.length_map] at hrow
  -- nothing stands behind the last token
  have hend : Closes ((Peg.Input.items (e.tokens.map Node.token)).tape.token? e.tokens.length) := by
    have hnone : (e.tokens.map Node.token)[e.tokens.length]? = none := by simp
    show Closes (e.tokens.map Node.token)[e.tokens.length]?
    rw [hnone]
    decide
  apply (Peg.parse_reports (.items _) (reads_expr e h hrow hend)).imp
  rintro ⟨outcome, w⟩ hreport
  obtain ⟨s, rfl, hstart, hstop, hvalue⟩ := Peg.Outcome.exists_ok hreport
  refine ⟨s, rfl, ?_, ?_, hvalue⟩
  · rw [Peg.Cursor.offset, hstart]
    rfl
  · rw [Peg.Cursor.offset, hstop]
    rfl

/-- A conditional with a block that binds, sends and throws in its first branch, and the
application of a function to a pair in its second one. -/
theorem expr_of_tokens_conditional :
    let equation : Eqtn := .mk (.pair (.ident "x") .any) (.value (.app (.ident "f") .self))
    let message : Expr := .pair (.literal (.symbol "go")) (.new (.literal (.string "one")))
    let block : Expr := .block [.bind equation, .afterSend (.const .undefined) message .self,
      .throw (.letIn equation (.const .nil))]
    let applied : Expr := .app (.abs (.pair .self (.ident "y")) (.ident "y")) message
    let e : Expr := .cond equation block (some applied)
    e.Plain ∧ Terminates (fun fuel =>
      Peg.parse fuel none (call "expr") (.ofList (e.tokens.map .token)) frontEnd) fun r =>
        ∃ s, r.1 = .ok s ∧ s.start.offset = 0 ∧ s.stop.offset = e.tokens.length ∧
          s.value = .expr e := by
  intro equation message block applied e
  have hplain : e.Plain := by
    simp [e, applied, block, message, equation, Expr.Plain, Expr.PlainElse, Stmt.Plain,
      Stmt.AllPlain, Ptrn.Plain, Eqtn.Plain]
  exact ⟨hplain, expr_of_tokens e hplain⟩

end Humus.Syntactic

import Humus.Proofs.Reduction
import Humus.Tree.Reduction

/-!
# The syntax grammar is total

Over any list of nodes every rule of the syntax grammar matches or is refused: its reductions accept
whatever their rules produce, and none of its rules is left-recursive.

## Main definitions

* `shape name n`: the nodes that the rule `name` has in the end
* `Raw name n`: the nodes that the rule `name` has before its reduction
* `nullables`, `layers`: the rules that may match nothing, and an order of the rules

## Main results

* `total_grammar`: the syntax grammar is total
-/

namespace Humus.Syntactic

open Humus.Tree
open Peg (Pattern RuleRef World)

/-! ## Shapes -/

/-- The nodes that the rule `name` has in the end. -/
@[simp] def shape : String → Node → Prop
  | "humus", n => ∃ ns, n = .list ns ∧ ∀ u ∈ ns, ∃ s, u = .stmt s
  | "stmt", n => ∃ s, n = .stmt s
  | "eqtn", n => ∃ e, n = .eqtn e
  | "ptrn", n | "pterm", n => ∃ p, n = .ptrn p
  | "ident", n => ∃ s, n = .text s
  | "symbol", n => ∃ s, n = .token (.symbol s)
  | "number", n => ∃ m, n = .token (.number m)
  | "char", n => ∃ c, n = .token (.char c)
  | "string", n => ∃ s, n = .token (.string s)
  | _, n => ∃ e, n = .expr e

/-- The nodes that the rule `name` has before its reduction, over any tokens. -/
abbrev Raw (name : String) (n : Node) : Prop :=
  RawNode rules (fun _ => True) shape name n

/-- The rules that may match without consuming a token. -/
def nullables : List String := ["humus"]

/-- The rules, each behind those that it may enter before it has consumed a token. -/
def layers : List String := ["ident", "symbol", "number", "char", "string", "block", "const",
  "call", "term", "pterm", "expr", "ptrn", "eqtn", "stmt", "humus"]

/-- A rule for a class of tokens has the tokens of that class. -/
theorem exists_token_of_raw {name label : String} {test : Token → Bool} {n : Node}
    (hrule : rules.lookup name = some (tokenClass label test)) (h : Raw name n) :
    ∃ t, n = .token t ∧ test t = true := by
  have htest : n.token?.any test = true := (h.yields hrule).1
  cases n with
  | token t => exact ⟨t, rfl, htest⟩
  | nothing | char | text | list | stmt | expr | ptrn | eqtn => cases htest

/-! ## Parts -/

theorem exists_mapM {α : Type} {f : Node → Except String α} {ns : List Node}
    (h : ∀ n ∈ ns, ∃ a, f n = .ok a) : ∃ as, ns.mapM f = .ok as := by
  induction ns with
  | nil => exact ⟨[], rfl⟩
  | cons n ns ih =>
    obtain ⟨⟨a, ha⟩, hns⟩ := List.forall_mem_cons.mp h
    obtain ⟨as, has⟩ := ih hns
    refine ⟨a :: as, ?_⟩
    rw [List.mapM_cons, ha, has]
    rfl

variable {n : Node} (rule : String)

/-- Branches of a conditional are nested behind its last branch. -/
theorem exists_nestElifs (next : Option Expr) {ns : List Node}
    (h : ∀ n ∈ ns, ∃ q e, n = .list [.token (.keyword .elif), .eqtn q, .expr e]) :
    ∃ next', nestElifs rule next ns = .ok next' := by
  induction ns with
  | nil => exact ⟨next, rfl⟩
  | cons n ns ih =>
    obtain ⟨⟨q, e, rfl⟩, hns⟩ := List.forall_mem_cons.mp h
    obtain ⟨next', hnext⟩ := ih hns
    refine ⟨some (.cond q e next'), ?_⟩
    rw [nestElifs, hnext]
    rfl

theorem exists_conditional (q : Eqtn) (e : Expr) {ns : List Node} {otherwise : Node}
    (hns : ∀ n ∈ ns, ∃ q e, n = .list [.token (.keyword .elif), .eqtn q, .expr e])
    (hotherwise : otherwise = .list [] ∨
      ∃ e, otherwise = .list [.list [.token (.keyword .else), .expr e]]) :
    ∃ e', conditional rule (.eqtn q) (.expr e) (.list ns) otherwise = .ok e' := by
  rcases hotherwise with rfl | ⟨last, rfl⟩
  · obtain ⟨next, hnext⟩ := exists_nestElifs rule none hns
    refine ⟨.cond q e next, ?_⟩
    simp only [conditional, optionOf, itemsOf, eqtnOf, exprOf, pure, bind, Except.pure, Except.bind,
      hnext]
  · obtain ⟨next, hnext⟩ := exists_nestElifs rule (some last) hns
    refine ⟨.cond q e next, ?_⟩
    simp only [conditional, optionOf, itemsOf, eqtnOf, exprOf, secondOf, Functor.map, Except.map,
      pure, bind, Except.pure, Except.bind, hnext]

theorem exists_distinction (e : Expr) {ns : List Node}
    (hns : ∀ n ∈ ns, ∃ p e, n = .list [.ptrn p, .token (.punct ':'), .expr e]) :
    ∃ e', distinction rule (.expr e) (.list ns) = .ok e' := by
  have harms : ∀ n ∈ ns, ∃ arm, armOf rule n = .ok arm := by
    intro n hn
    obtain ⟨p, e, rfl⟩ := hns n hn
    exact ⟨.mk p e, rfl⟩
  obtain ⟨arms, harms⟩ := exists_mapM harms
  refine ⟨.case e arms, ?_⟩
  simp only [distinction, itemsOf, exprOf, pure, bind, Except.pure, Except.bind, harms]

/-- An expression is applied to an argument in parentheses, which may be missing. -/
theorem exists_application (abs : Expr) {argument : Node}
    (h : argument = .list [] ∨ ∃ u,
      argument = .list [.list [.token (.punct '('), u, .token (.punct ')')]] ∧
        (u = .list [] ∨ ∃ e, u = .list [.expr e])) :
    ∃ e, application rule abs argument = .ok (.expr e) := by
  rcases h with rfl | ⟨u, rfl, rfl | ⟨e, rfl⟩⟩
  · exact ⟨abs, rfl⟩
  · exact ⟨.app abs (.const .nil), rfl⟩
  · exact ⟨.app abs e, rfl⟩

/-! ## Reductions -/

theorem exists_reduceHumus (h : Raw "humus" n) :
    ∃ u, reduceHumus "humus" n = .ok u ∧ shape "humus" u := by
  have h := h.yields rfl
  simp [call] at h
  obtain ⟨ns, rfl, hns⟩ := h
  exact ⟨.list ns, rfl, ns, rfl, hns⟩

theorem exists_reduceBlock (h : Raw "block" n) :
    ∃ u, reduceBlock "block" n = .ok u ∧ shape "block" u := by
  have h := h.yields rfl
  simp [call, punct] at h
  obtain ⟨ns, rfl, hns⟩ := h
  have hstmts : ∀ n ∈ ns, ∃ s, stmtOf "block" n = .ok s := by
    intro n hn
    obtain ⟨s, rfl⟩ := hns n hn
    exact ⟨s, rfl⟩
  obtain ⟨stmts, hstmts⟩ := exists_mapM hstmts
  refine ⟨.expr (.block stmts), ?_, _, rfl⟩
  simp only [reduceBlock, itemsOf, pure, bind, Except.pure, Except.bind, hstmts]

theorem exists_reduceStmt (h : Raw "stmt" n) :
    ∃ u, reduceStmt "stmt" n = .ok u ∧ shape "stmt" u := by
  have h := h.yields rfl
  simp [call, word] at h
  rcases h with ⟨q, rfl⟩ | ⟨after, ⟨m, r, rfl⟩, rfl | ⟨a, rfl⟩⟩ | ⟨s, e, rfl⟩ | ⟨e, rfl⟩ |
    ⟨e, rfl⟩ | ⟨e, rfl⟩
  · exact ⟨.stmt (.bind q), rfl, _, rfl⟩
  · exact ⟨.stmt (.send m r), rfl, _, rfl⟩
  · exact ⟨.stmt (.afterSend a m r), rfl, _, rfl⟩
  · exact ⟨.stmt (.create s e), rfl, _, rfl⟩
  · exact ⟨.stmt (.become e), rfl, _, rfl⟩
  · exact ⟨.stmt (.throw e), rfl, _, rfl⟩
  · exact ⟨.stmt (.expr e), rfl, _, rfl⟩

theorem exists_reduceExpr (h : Raw "expr" n) :
    ∃ u, reduceExpr "expr" n = .ok u ∧ shape "expr" u := by
  have h := h.yields rfl
  simp [call, word, punct] at h
  rcases h with ⟨q, e, rfl⟩ | ⟨otherwise, ns, ⟨q, e, rfl⟩, hns, hotherwise⟩ |
    ⟨ns, ⟨e, rfl⟩, -, hns⟩ | ⟨tail, ⟨e, rfl⟩, rfl | ⟨e', rfl⟩⟩
  · exact ⟨.expr (.letIn q e), rfl, _, rfl⟩
  · obtain ⟨e', he'⟩ := exists_conditional "expr" q e hns hotherwise
    refine ⟨.expr e', ?_, e', rfl⟩
    show (conditional "expr" (.eqtn q) (.expr e) (.list ns) otherwise).map Node.expr = _
    rw [he']
    rfl
  · obtain ⟨e', he'⟩ := exists_distinction "expr" e hns
    refine ⟨.expr e', ?_, e', rfl⟩
    show (distinction "expr" (.expr e) (.list ns)).map Node.expr = _
    rw [he']
    rfl
  · exact ⟨.expr e, rfl, e, rfl⟩
  · exact ⟨.expr (.pair e e'), rfl, _, rfl⟩

theorem exists_reduceTerm (h : Raw "term" n) :
    ∃ u, reduceTerm "term" n = .ok u ∧ shape "term" u := by
  have h := h.yields rfl
  simp [call, word] at h
  rcases h with ⟨e, rfl⟩ | ⟨e, rfl⟩
  · exact ⟨.expr (.new e), rfl, _, rfl⟩
  · exact ⟨.expr e, rfl, e, rfl⟩

theorem exists_reduceCall (h : Raw "call" n) :
    ∃ u, reduceCall "call" n = .ok u ∧ shape "call" u := by
  have h := h.yields rfl
  simp [call, punct, argument] at h
  rcases h with ⟨argument, ⟨s, rfl⟩, hargument⟩ | ⟨u, rfl, ⟨argument, ⟨e, rfl⟩, hargument⟩ | rfl⟩
  · obtain ⟨e, he⟩ := exists_application "call" (.ident s) hargument
    exact ⟨.expr e, he, e, rfl⟩
  · obtain ⟨e', he'⟩ := exists_application "call" e hargument
    exact ⟨.expr e', he', e', rfl⟩
  · exact ⟨.expr (.const .nil), rfl, _, rfl⟩

theorem exists_reduceEqtn (h : Raw "eqtn" n) :
    ∃ u, reduceEqtn "eqtn" n = .ok u ∧ shape "eqtn" u := by
  have h := h.yields rfl
  simp [call, punct] at h
  rcases h with ⟨param, ⟨s, e, rfl⟩, rfl | ⟨p, rfl⟩⟩ | ⟨left, right, rfl⟩
  · exact ⟨_, rfl, _, rfl⟩
  · exact ⟨_, rfl, _, rfl⟩
  · exact ⟨.eqtn (.mk left right), rfl, _, rfl⟩

theorem exists_reducePtrn (h : Raw "ptrn" n) :
    ∃ u, reducePtrn "ptrn" n = .ok u ∧ shape "ptrn" u := by
  have h := h.yields rfl
  simp [call, punct] at h
  obtain ⟨tail, ⟨p, rfl⟩, rfl | ⟨p', rfl⟩⟩ := h
  · exact ⟨.ptrn p, rfl, p, rfl⟩
  · exact ⟨.ptrn (.pair p p'), rfl, _, rfl⟩

theorem exists_reducePterm (h : Raw "pterm" n) :
    ∃ u, reducePterm "pterm" n = .ok u ∧ shape "pterm" u := by
  have h := h.yields rfl
  simp [call, word, punct] at h
  rcases h with rfl | ⟨e, rfl⟩ | ⟨u, rfl, rfl | ⟨p, rfl⟩⟩ | ⟨e, rfl⟩ | ⟨s, rfl⟩
  · exact ⟨.ptrn .any, rfl, _, rfl⟩
  · exact ⟨.ptrn (.value e), rfl, _, rfl⟩
  · exact ⟨.ptrn (.const .nil), rfl, _, rfl⟩
  · exact ⟨.ptrn p, rfl, p, rfl⟩
  · exact ⟨.ptrn (constPtrn e), rfl, _, rfl⟩
  · exact ⟨.ptrn (.ident s), rfl, _, rfl⟩

theorem exists_reduceConst (h : Raw "const" n) :
    ∃ u, reduceConst "const" n = .ok u ∧ shape "const" u := by
  have h := h.yields rfl
  simp [call, word, punct] at h
  rcases h with ⟨e, rfl⟩ | rfl | ⟨p, e, rfl⟩ | ⟨s, rfl⟩ | ⟨m, rfl⟩ | ⟨c, rfl⟩ | ⟨s, rfl⟩ | rfl |
    rfl | rfl | rfl
  all_goals exact ⟨_, rfl, _, rfl⟩

theorem exists_reduceIdent (h : Raw "ident" n) :
    ∃ u, reduceIdent "ident" n = .ok u ∧ shape "ident" u := by
  obtain ⟨t, rfl, ht⟩ := exists_token_of_raw rfl h
  cases t with
  | ident name => exact ⟨.text name, rfl, name, rfl⟩
  | keyword | punct | symbol | string | char | number => cases ht

theorem shape_symbol (h : Raw "symbol" n) : shape "symbol" n := by
  obtain ⟨t, rfl, ht⟩ := exists_token_of_raw rfl h
  cases t with
  | symbol name => exact ⟨name, rfl⟩
  | keyword | punct | ident | string | char | number => cases ht

theorem shape_number (h : Raw "number" n) : shape "number" n := by
  obtain ⟨t, rfl, ht⟩ := exists_token_of_raw rfl h
  cases t with
  | number m => exact ⟨m, rfl⟩
  | keyword | punct | ident | symbol | string | char => cases ht

theorem shape_char (h : Raw "char" n) : shape "char" n := by
  obtain ⟨t, rfl, ht⟩ := exists_token_of_raw rfl h
  cases t with
  | char c => exact ⟨c, rfl⟩
  | keyword | punct | ident | symbol | string | number => cases ht

theorem shape_string (h : Raw "string" n) : shape "string" n := by
  obtain ⟨t, rfl, ht⟩ := exists_token_of_raw rfl h
  cases t with
  | string s => exact ⟨s, rfl⟩
  | keyword | punct | ident | symbol | char | number => cases ht

/-! ## Totality -/

/-- The reductions accept what their rules produce. -/
theorem reduces_rules : ∀ rule ∈ rules, ∀ n, Raw rule.1 n →
    Reduces (shape rule.1) rule.1 n (reductions.lookup rule.1) := by
  simp only [rules, List.forall_mem_cons]
  refine ⟨fun _ => exists_reduceHumus, fun _ => exists_reduceBlock, fun _ => exists_reduceStmt,
    fun _ => exists_reduceExpr, fun _ => exists_reduceTerm, fun _ => exists_reduceCall,
    fun _ => exists_reduceEqtn, fun _ => exists_reducePtrn, fun _ => exists_reducePterm,
    fun _ => exists_reduceConst, fun _ => exists_reduceIdent, fun _ => shape_symbol,
    fun _ => shape_number, fun _ => shape_char, fun _ => shape_string, ?_⟩
  exact fun _ h => absurd h List.not_mem_nil

theorem native_rules : ∀ rule ∈ rules, rule.2.isForeign = false := by
  decide

theorem within_rules : ∀ rule ∈ rules, rule.2.Within (rulesOf grammarId rules) := by
  simp [rules, rulesOf, Pattern.Within, Pattern.AllWithin, call, word, punct, tokenClass, argument]

theorem nullable_rules : ∀ rule ∈ rules,
    rule.2.Nullable (fun ref => ref.name ∈ nullables) → rule.1 ∈ nullables := by
  simp [rules, nullables, Pattern.Nullable, Pattern.AllNullable, Pattern.AnyNullable, call, word,
    punct, tokenClass, argument]

theorem opens_rules : ∀ rule ∈ rules,
    rule.2.Opens (Pattern.Nullable fun ref => ref.name ∈ nullables)
      fun ref => layers.idxOf ref.name < layers.idxOf rule.1 := by
  simp [rules, nullables, Pattern.Opens, Pattern.SequenceOpens, Pattern.ChoiceOpens,
    Pattern.Nullable, Pattern.AllNullable, Pattern.AnyNullable, call, word, punct, tokenClass,
    argument]
  decide

/-- **The syntax grammar is total**, over any tokens. -/
theorem total_grammar {w : World Node} (hg : w.grammar? grammarId = some grammar) :
    w.rulebook.Total (rulesOf grammarId rules) (fun ref => ref.name ∈ nullables)
      (fun ref => layers.idxOf ref.name) (fun _ => True) fun ref => shape ref.name :=
  total_reducedGrammar hg fun rule hrule => {
    native := native_rules rule hrule
    within := within_rules rule hrule
    nullable := nullable_rules rule hrule
    opens := opens_rules rule hrule
    reduces := reduces_rules rule hrule }

end Humus.Syntactic

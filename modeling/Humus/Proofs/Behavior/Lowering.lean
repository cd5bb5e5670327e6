import Humus.Behavior.Lowering
import Mathlib.Data.List.Basic

/-!
# Lowering as a function of the tree

Lowering threads a stack of open scopes through the tree. What it comes to depends on the tree
alone: the behavior of an expression is given here without scopes, the names that a block declares
being read off its statements. Lowering an expression finds the stack as it left it, whether it
fails or not.

## Main definitions

* `Ptrn.names`, `Eqtn.names`, `Stmt.names`: the names that a part of a tree binds
* `Expr.numbers`: the number literals of an expression, in the order in which lowering meets them
* `Expr.behavior`: the behavior of an expression, whatever its numbers
* `Lowers lower numbers names a`: what a lowering meets, declares and comes to

## Main results

* `run_lowerExpr`: lowering an expression comes to its behavior and leaves all scopes unchanged
* `lowerExpr_eq_ok_iff`: which expressions have a behavior tree
-/

namespace Humus

open Humus.Tree (Expr Stmt Arm Ptrn Eqtn Literal)

namespace Tree

/-! ## Names -/

/-- The identifiers of a pattern, from the left. The expressions in it are not looked into. -/
def Ptrn.names : Ptrn → List String
  | .pair head tail => head.names ++ tail.names
  | .ident name => [name]
  | _ => []

/-- The identifiers of an equation, from the left. -/
def Eqtn.names : Eqtn → List String
  | .mk left right => left.names ++ right.names

/-- The names that a statement binds in the block that it belongs to. -/
def Stmt.names : Stmt → List String
  | .bind eqtn => eqtn.names
  | .create name _ => [name]
  | _ => []

/-! ## Numbers -/

/-- The number that a literal is. -/
def Literal.numbers : Literal → List Number
  | .number n => [n]
  | _ => []

mutual

/-- The number literals of an expression, in the order in which lowering meets them: those of a
second branch come first. -/
def Expr.numbers : Expr → List Number
  | .pair head tail => head.numbers ++ tail.numbers
  | .letIn eqtn body => eqtn.numbers ++ body.numbers
  | .cond eqtn body next => numbersOption next ++ (eqtn.numbers ++ body.numbers)
  | .case subject arms => subject.numbers ++ numbersArms arms
  | .new expr => expr.numbers
  | .app abs arg => abs.numbers ++ arg.numbers
  | .block stmts => numbersStmts stmts
  | .abs ptrn body => ptrn.numbers ++ body.numbers
  | .literal value => value.numbers
  | .ident _ | .self | .const _ => []

/-- The number literals of a second branch. -/
def numbersOption : Option Expr → List Number
  | none => []
  | some next => next.numbers

/-- The number literals of some statements. -/
def numbersStmts : List Stmt → List Number
  | [] => []
  | s :: ss => s.numbers ++ numbersStmts ss

/-- The number literals of a statement. -/
def Stmt.numbers : Stmt → List Number
  | .expr expr | .create _ expr | .become expr | .throw expr => expr.numbers
  | .bind eqtn => eqtn.numbers
  | .send msg recipient => msg.numbers ++ recipient.numbers
  | .afterSend delay msg recipient => delay.numbers ++ (msg.numbers ++ recipient.numbers)

/-- The number literals of some arms, those of the last arm first. -/
def numbersArms : List Arm → List Number
  | [] => []
  | .mk ptrn expr :: arms => numbersArms arms ++ (ptrn.numbers ++ expr.numbers)

/-- The number literals of a pattern. -/
def Ptrn.numbers : Ptrn → List Number
  | .pair head tail => head.numbers ++ tail.numbers
  | .value expr => expr.numbers
  | .literal value => value.numbers
  | .any | .ident _ | .self | .const _ => []

/-- The number literals of an equation. -/
def Eqtn.numbers : Eqtn → List Number
  | .mk left right => left.numbers ++ right.numbers

end

/-! ## Behaviors -/

mutual

/-- The behavior of an expression. A block declares the names that its own statements bind, and a
local equation its identifiers, each where it stands first. -/
def Expr.behavior : Expr → Behavior.Expr
  | .pair head tail => .pair head.behavior tail.behavior
  | .letIn eqtn body => .letIn eqtn.names.eraseDups eqtn.behavior body.behavior
  | .cond eqtn body next => .cond eqtn.behavior body.behavior (behaviorOption next)
  | .case subject arms => .case subject.behavior (behaviorArms arms)
  | .new expr => .new expr.behavior
  | .app abs arg => .app abs.behavior arg.behavior
  | .ident name => .ident name
  | .block stmts => .block (stmts.flatMap Stmt.names).eraseDups (.chain (behaviorStmts stmts))
  | .self => .self
  | .abs ptrn body => .abs ptrn.behavior body.behavior
  | .const value => .const value
  | .literal value => .literal value

/-- The behavior of a second branch. One that is missing is the undefined constant. -/
def behaviorOption : Option Expr → Behavior.Expr
  | none => .const .undefined
  | some next => next.behavior

/-- The behaviors of some statements. -/
def behaviorStmts : List Stmt → List Behavior.Stmt
  | [] => []
  | s :: ss => s.behavior :: behaviorStmts ss

/-- The behavior of a statement. -/
def Stmt.behavior : Stmt → Behavior.Stmt
  | .expr expr => .expr expr.behavior
  | .bind eqtn => .bind eqtn.behavior
  | .send msg recipient => .send msg.behavior recipient.behavior
  | .afterSend delay msg recipient => .afterSend delay.behavior msg.behavior recipient.behavior
  | .create name expr => .create name expr.behavior
  | .become expr => .become expr.behavior
  | .throw expr => .throw expr.behavior

/-- The behavior of the arms of a case distinction. -/
def behaviorArms : List Arm → Behavior.Cases
  | [] => .finish
  | .mk ptrn expr :: arms => .choice ptrn.behavior expr.behavior (behaviorArms arms)

/-- The behavior of a pattern. -/
def Ptrn.behavior : Ptrn → Behavior.Ptrn
  | .pair head tail => .pair head.behavior tail.behavior
  | .any => .any
  | .value expr => .value expr.behavior
  | .ident name => .ident name
  | .self => .self
  | .const value => .const value
  | .literal value => .literal value

/-- The behavior of an equation. -/
def Eqtn.behavior : Eqtn → Behavior.Eqtn
  | .mk left right => .mk left.behavior right.behavior

end

end Tree

namespace Lowering

/-! ## Declarations -/

/-- The scope with some more names. -/
def addNames (scope : Scope) (names : List String) : Scope :=
  names.foldl (fun scope name => addName name scope) scope

/-- Names are added behind those of the scope, each of them once. -/
theorem addNames_eq (scope : Scope) (names : List String) :
    addNames scope names = scope ++ (names.filter (· ∉ scope)).eraseDups := by
  induction names generalizing scope with
  | nil => simp [addNames]
  | cons name names ih =>
    rw [addNames, List.foldl_cons, ← addNames, ih]
    by_cases h : name ∈ scope
    · simp [addName, h]
    · have hfilter : (names.filter fun x => decide (x ∉ scope ++ [name])) =
          (names.filter fun x => decide (x ∉ scope)).filter fun x => !x == name := by
        rw [List.filter_filter]
        congr 1
        funext x
        simp [and_comm, beq_eq_decide]
      rw [addName, if_neg h, hfilter, List.filter_cons_of_pos (by simpa using h),
        List.eraseDups_cons, List.append_assoc, List.singleton_append]

theorem addNames_nil (names : List String) : addNames [] names = names.eraseDups := by
  simp [addNames_eq]

/-- The open scopes after some declarations. -/
def declareAll (names : List String) : Scopes → Scopes
  | [] => []
  | scope :: scopes => addNames scope names :: scopes

@[simp] theorem declareAll_nil (scopes : Scopes) : declareAll [] scopes = scopes := by
  cases scopes <;> rfl

theorem declareAll_append (names names' : List String) (scopes : Scopes) :
    declareAll (names ++ names') scopes = declareAll names' (declareAll names scopes) := by
  cases scopes with
  | nil => rfl
  | cons scope scopes => simp [declareAll, addNames, List.foldl_append]

/-! ## Running a lowering -/

/-- A result, unless a number without a value was met. The first of these is the error. -/
def checked {α : Type} (numbers : List Number) (a : α) : Except LowerError α :=
  match numbers.find? (·.value?.isNone) with
  | some n => .error (.invalidNumber n)
  | none => .ok a

theorem checked_eq_ok_iff {α : Type} {numbers : List Number} {a b : α} :
    checked numbers a = .ok b ↔ (∀ n ∈ numbers, n.value?.isSome) ∧ a = b := by
  rw [checked]
  cases h : numbers.find? (·.value?.isNone) with
  | none =>
    have hall : ∀ n ∈ numbers, n.value?.isSome := by
      simpa [Option.isSome_iff_ne_none] using h
    exact ⟨fun heq => ⟨hall, Except.ok.inj heq⟩, fun heq => congrArg _ heq.2⟩
  | some n =>
    refine ⟨fun heq => (nomatch heq), fun heq => ?_⟩
    have hsome := heq.1 n (List.mem_of_find?_eq_some h)
    have hnone := List.find?_some h
    rw [Option.isNone_iff_eq_none] at hnone
    rw [hnone] at hsome
    cases hsome

theorem checked_eq_error_iff {α : Type} {numbers : List Number} {a : α} {e : LowerError} :
    checked numbers a = .error e ↔
      ∃ n, numbers.find? (·.value?.isNone) = some n ∧ .invalidNumber n = e := by
  rw [checked]
  cases numbers.find? (·.value?.isNone) <;> simp

section Running

variable {α β : Type} {lower : LowerM α} {next : α → LowerM β} {scopes scopes' : Scopes}

theorem runIn_pure (a : α) : runIn scopes (pure a) = (.ok a, scopes) := rfl

theorem runIn_bind_ok {a : α} (h : runIn scopes lower = (.ok a, scopes')) :
    runIn scopes (lower >>= next) = runIn scopes' (next a) := by
  rw [runIn] at h
  rw [runIn, ExceptT.run_bind, StateT.run_bind, h]
  rfl

theorem runIn_bind_error {e : LowerError} (h : runIn scopes lower = (.error e, scopes')) :
    runIn scopes (lower >>= next) = (.error e, scopes') := by
  rw [runIn] at h
  rw [runIn, ExceptT.run_bind, StateT.run_bind, h]
  rfl

theorem runIn_declare (name : String) : runIn scopes (declare name) =
    (.ok (), declareAll [name] scopes) := by
  cases scopes <;> rfl

theorem runIn_inScope {result : Except LowerError α} {scope : Scope}
    (h : runIn ([] :: scopes) lower = (result, scope :: scopes)) :
    runIn scopes (inScope lower) = (result.map (scope, ·), scopes) := by
  rw [runIn] at h
  show ((lower.run.run ([] :: scopes)).1.map ((lower.run.run ([] :: scopes)).2.headD [], ·),
    (lower.run.run ([] :: scopes)).2.tail) = _
  rw [h]
  rfl

end Running

/-! ## What a lowering does -/

/-- The lowering meets the number literals in this order and declares the names in this order. It
comes to `a`, unless one of the numbers has no value: then it stops there, having declared some of
the names. It does nothing else to the open scopes. -/
structure Lowers {α : Type} (lower : LowerM α) (numbers : List Number) (names : List String)
    (a : α) : Prop where
  of_values (h : numbers.find? (·.value?.isNone) = none) (scopes : Scopes) :
    runIn scopes lower = (.ok a, declareAll names scopes)
  of_invalid {n : Number} (h : numbers.find? (·.value?.isNone) = some n) (scopes : Scopes) :
    ∃ declared, declared <+: names ∧
      runIn scopes lower = (.error (.invalidNumber n), declareAll declared scopes)

section Lowers

variable {α β : Type} {lower : LowerM α} {next : α → LowerM β} {numbers numbers' : List Number}
  {names names' : List String} {a : α} {b : β}

theorem lowers_pure (a : α) : Lowers (pure a) [] [] a where
  of_values _ scopes := by rw [declareAll_nil, runIn_pure]
  of_invalid h := (nomatch h)

theorem lowers_declare (name : String) : Lowers (declare name) [] [name] () where
  of_values _ _ := runIn_declare name
  of_invalid h := (nomatch h)

/-- A lowering that goes on with what another one comes to. -/
theorem Lowers.bind (h : Lowers lower numbers names a)
    (h' : Lowers (next a) numbers' names' b) :
    Lowers (lower >>= next) (numbers ++ numbers') (names ++ names') b where
  of_values hnone scopes := by
    rw [List.find?_append, Option.or_eq_none_iff] at hnone
    rw [runIn_bind_ok (h.of_values hnone.1 scopes), h'.of_values hnone.2, declareAll_append]
  of_invalid {n} hsome scopes := by
    rw [List.find?_append] at hsome
    -- a number without a value stops the first lowering, or else the one that comes behind it
    cases hfind : numbers.find? (·.value?.isNone) with
    | some m =>
      obtain ⟨declared, hdeclared, hrun⟩ := h.of_invalid hfind scopes
      rw [hfind, Option.some_or, Option.some.injEq] at hsome
      subst hsome
      exact ⟨declared, hdeclared.trans (List.prefix_append _ _), runIn_bind_error hrun⟩
    | none =>
      rw [hfind, Option.none_or] at hsome
      obtain ⟨declared, hdeclared, hrun⟩ := h'.of_invalid hsome (declareAll names scopes)
      refine ⟨names ++ declared, (List.prefix_append_right_inj names).mpr hdeclared, ?_⟩
      rw [runIn_bind_ok (h.of_values hfind scopes), hrun, declareAll_append]

/-- A lowering whose result is put into another one. -/
theorem Lowers.map (h : Lowers lower numbers names a) (f : α → β) :
    Lowers (lower >>= fun a => pure (f a)) numbers names (f a) := by
  have hpure : Lowers (lower >>= fun a => pure (f a)) (numbers ++ []) (names ++ []) (f a) :=
    h.bind (lowers_pure (f a))
  rwa [List.append_nil, List.append_nil] at hpure

/-- In a scope of its own, a lowering declares nothing outside. -/
theorem Lowers.inScope (h : Lowers lower numbers names a) :
    Lowers (inScope lower) numbers [] (names.eraseDups, a) where
  of_values hnone scopes := by
    have hrun := h.of_values hnone ([] :: scopes)
    rw [declareAll, addNames_nil] at hrun
    rw [runIn_inScope hrun, declareAll_nil]
    rfl
  of_invalid hsome scopes := by
    obtain ⟨declared, -, hrun⟩ := h.of_invalid hsome ([] :: scopes)
    refine ⟨[], List.nil_prefix, ?_⟩
    rw [runIn_inScope hrun, declareAll_nil]
    rfl

/-- A lowering that declares nothing leaves every open scope as it is. -/
theorem Lowers.runIn_eq (h : Lowers lower numbers [] a) (scopes : Scopes) :
    runIn scopes lower = (checked numbers a, scopes) := by
  rw [checked]
  cases hfind : numbers.find? (·.value?.isNone) with
  | none => rw [h.of_values hfind, declareAll_nil]
  | some n =>
    obtain ⟨declared, hdeclared, hrun⟩ := h.of_invalid hfind scopes
    rw [hrun, List.prefix_nil.mp hdeclared, declareAll_nil]

/-- Outside of all scopes, names are declared nowhere. -/
theorem Lowers.runIn_nil (h : Lowers lower numbers names a) :
    runIn [] lower = (checked numbers a, []) := by
  rw [checked]
  cases hfind : numbers.find? (·.value?.isNone) with
  | none => rw [h.of_values hfind, declareAll]
  | some n =>
    obtain ⟨declared, -, hrun⟩ := h.of_invalid hfind []
    rw [hrun, declareAll]

end Lowers

/-! ## Trees -/

theorem lowers_literal (value : Literal) : Lowers (lowerLiteral value) value.numbers [] value := by
  cases value with
  | number n =>
    rw [lowerLiteral, Literal.numbers]
    cases hn : n.value? with
    | some v =>
      refine ⟨fun _ scopes => ?_, fun h => ?_⟩
      · rw [declareAll_nil]; rfl
      · simp [hn] at h
    | none =>
      refine ⟨fun h => ?_, fun h scopes => ⟨[], List.nil_prefix, ?_⟩⟩
      · simp [hn] at h
      · rw [declareAll_nil]
        simp only [hn, Option.isNone_none, List.find?_cons_of_pos, Option.some.injEq] at h
        rw [h]; rfl
  | symbol | char | string => exact lowers_pure _

mutual

theorem lowers_expr : (e : Expr) → Lowers (lowerExpr e) e.numbers [] e.behavior
  | .pair head tail => by
    rw [lowerExpr, Expr.numbers, Expr.behavior]
    exact (lowers_expr head).bind ((lowers_expr tail).map _)
  | .letIn eqtn body => by
    rw [lowerExpr, Expr.numbers, Expr.behavior]
    exact (lowers_eqtn true eqtn).inScope.bind ((lowers_expr body).map _)
  | .cond eqtn body next => by
    rw [lowerExpr, Expr.numbers, Expr.behavior]
    exact (lowers_next next).bind ((lowers_eqtn false eqtn).bind ((lowers_expr body).map _))
  | .case subject arms => by
    rw [lowerExpr, Expr.numbers, Expr.behavior]
    exact (lowers_expr subject).bind ((lowers_arms arms).map _)
  | .new expr => by
    rw [lowerExpr, Expr.numbers, Expr.behavior]
    exact (lowers_expr expr).map _
  | .app abs arg => by
    rw [lowerExpr, Expr.numbers, Expr.behavior]
    exact (lowers_expr abs).bind ((lowers_expr arg).map _)
  | .block stmts => by
    rw [lowerExpr, Expr.numbers, Expr.behavior]
    exact (lowers_stmts stmts).inScope.map _
  | .abs ptrn body => by
    rw [lowerExpr, Expr.numbers, Expr.behavior]
    exact (lowers_ptrn false ptrn).bind ((lowers_expr body).map _)
  | .literal value => by
    rw [lowerExpr, Expr.numbers, Expr.behavior]
    exact (lowers_literal value).map _
  | .ident _ | .self | .const _ => lowers_pure _

theorem lowers_next : (next : Option Expr) →
    Lowers (lowerNext next) (Tree.numbersOption next) [] (Tree.behaviorOption next)
  | none => lowers_pure _
  | some next => lowers_expr next

/-- What the statements of a block declare, they declare in its scope. -/
theorem lowers_stmts : (stmts : List Stmt) → Lowers (lowerStmts stmts) (Tree.numbersStmts stmts)
    (stmts.flatMap Stmt.names) (Tree.behaviorStmts stmts)
  | [] => lowers_pure _
  | s :: ss => by
    rw [lowerStmts, Tree.numbersStmts, Tree.behaviorStmts, List.flatMap_cons]
    exact (lowers_stmt s).bind ((lowers_stmts ss).map _)

theorem lowers_stmt : (s : Stmt) → Lowers (lowerStmt s) s.numbers s.names s.behavior
  | .bind eqtn => by
    rw [lowerStmt, Stmt.numbers, Stmt.behavior]
    exact (lowers_eqtn true eqtn).map _
  | .create name expr => by
    rw [lowerStmt, Stmt.numbers, Stmt.behavior]
    exact (lowers_declare name).bind ((lowers_expr expr).map _)
  | .send msg recipient => by
    rw [lowerStmt, Stmt.numbers, Stmt.behavior]
    exact (lowers_expr msg).bind ((lowers_expr recipient).map _)
  | .afterSend delay msg recipient => by
    rw [lowerStmt, Stmt.numbers, Stmt.behavior]
    exact (lowers_expr delay).bind ((lowers_expr msg).bind ((lowers_expr recipient).map _))
  | .expr expr | .become expr | .throw expr => by
    rw [lowerStmt, Stmt.numbers, Stmt.behavior]
    exact (lowers_expr expr).map _

theorem lowers_arms : (arms : List Arm) →
    Lowers (lowerArms arms) (Tree.numbersArms arms) [] (Tree.behaviorArms arms)
  | [] => lowers_pure _
  | .mk ptrn expr :: arms => by
    rw [lowerArms, Tree.numbersArms, Tree.behaviorArms]
    exact (lowers_arms arms).bind ((lowers_ptrn false ptrn).bind ((lowers_expr expr).map _))

/-- A pattern declares its identifiers only where it binds. -/
theorem lowers_ptrn (binds : Bool) : (p : Ptrn) →
    Lowers (lowerPtrn binds p) p.numbers (if binds then p.names else []) p.behavior
  | .pair head tail => by
    rw [lowerPtrn, Ptrn.numbers, Ptrn.behavior]
    cases binds <;> exact (lowers_ptrn _ head).bind ((lowers_ptrn _ tail).map _)
  | .value expr => by
    rw [lowerPtrn, Ptrn.numbers, Ptrn.behavior]
    cases binds <;> exact (lowers_expr expr).map _
  | .ident name => by
    cases binds with
    | true => exact (lowers_declare name).bind (lowers_pure _)
    | false => exact lowers_pure _
  | .literal value => by
    rw [lowerPtrn, Ptrn.numbers, Ptrn.behavior]
    cases binds <;> exact (lowers_literal value).map _
  | .any | .self | .const _ => by
    cases binds <;> exact lowers_pure _

theorem lowers_eqtn (binds : Bool) : (e : Eqtn) →
    Lowers (lowerEqtn binds e) e.numbers (if binds then e.names else []) e.behavior
  | .mk left right => by
    rw [lowerEqtn, Eqtn.numbers, Eqtn.behavior]
    cases binds <;> exact (lowers_ptrn _ left).bind ((lowers_ptrn _ right).map _)

end

end Lowering

open Lowering (checked checked_eq_ok_iff runIn lowers_expr lowers_stmt lowers_ptrn)

/-- **Lowering an expression** comes to its behavior, unless one of its numbers has no value. In
either case every open scope stays as it is. -/
theorem run_lowerExpr (e : Expr) (scopes : Lowering.Scopes) :
    runIn scopes (Lowering.lowerExpr e) = (checked e.numbers e.behavior, scopes) :=
  (lowers_expr e).runIn_eq scopes

theorem lowerExpr_eq_ok_iff {e : Expr} {b : Behavior.Expr} :
    lowerExpr e = .ok b ↔ (∀ n ∈ e.numbers, n.value?.isSome) ∧ e.behavior = b := by
  rw [lowerExpr, run_lowerExpr, checked_eq_ok_iff]

theorem lowerStmt_eq_ok_iff {s : Stmt} {b : Behavior.Stmt} :
    lowerStmt s = .ok b ↔ (∀ n ∈ s.numbers, n.value?.isSome) ∧ s.behavior = b := by
  rw [lowerStmt, (lowers_stmt s).runIn_nil, checked_eq_ok_iff]

theorem lowerProgram_eq (stmts : List Stmt) : lowerProgram stmts = lowerExpr (.block stmts) := rfl

theorem lowerProgram_eq_checked (stmts : List Stmt) :
    lowerProgram stmts = checked (Tree.numbersStmts stmts) (Expr.block stmts).behavior := by
  rw [lowerProgram_eq, lowerExpr, run_lowerExpr, Expr.numbers]

end Humus

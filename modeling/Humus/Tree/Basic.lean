import Humus.Token.Basic

/-!
# Syntax trees

The syntax tree of a Humus program. Some notations are gone from it: a chain of `ELIF` is a nest
of conditionals, empty parentheses are the constant `NIL`, and the equation `f(p) = e` is the
equation of `f` with the value of the abstraction `\p.e`.

## Main definitions

* `Expr`, `Stmt`, `Arm`, `Ptrn`, `Eqtn`: expressions, statements, the arms of a case distinction,
  patterns and equations
* `Constant`, `Literal`: the leaves
-/

namespace Humus.Tree

/-- A constant that is a word of its own. -/
inductive Constant where
  | nil
  | bool (b : Bool)
  /-- The question mark. -/
  | undefined
  deriving DecidableEq

/-- A literal. -/
inductive Literal where
  | symbol (name : String)
  | number (n : Number)
  | char (c : Char)
  | string (s : String)
  deriving DecidableEq

mutual

/-- An expression. -/
inductive Expr where
  | pair (head tail : Expr)
  | letIn (eqtn : Eqtn) (body : Expr)
  /-- The first branch if the equation holds, else the second, which may be missing. -/
  | cond (eqtn : Eqtn) (body : Expr) (next : Option Expr)
  | case (subject : Expr) (arms : List Arm)
  | new (expr : Expr)
  | app (abs arg : Expr)
  | ident (name : String)
  | block (stmts : List Stmt)
  | self
  | abs (ptrn : Ptrn) (body : Expr)
  | const (value : Constant)
  | literal (value : Literal)

/-- A statement. -/
inductive Stmt where
  | expr (expr : Expr)
  | bind (eqtn : Eqtn)
  | send (msg recipient : Expr)
  | afterSend (delay msg recipient : Expr)
  | create (name : String) (expr : Expr)
  | become (expr : Expr)
  | throw (expr : Expr)

/-- An arm of a case distinction. -/
inductive Arm where
  | mk (ptrn : Ptrn) (expr : Expr)

/-- A pattern. -/
inductive Ptrn where
  | pair (head tail : Ptrn)
  | any
  /-- Whatever equals the value of the expression. -/
  | value (expr : Expr)
  | ident (name : String)
  | self
  | const (value : Constant)
  | literal (value : Literal)

/-- An equation between two patterns. -/
inductive Eqtn where
  | mk (left right : Ptrn)

end

/-! ## Equality -/

mutual

/-- Equality of expressions is decided along their structure. -/
def Expr.decEq (a b : Expr) : Decidable (a = b) := by
  cases a <;> cases b
  case pair.pair a b c d | app.app a b c d =>
    haveI := Expr.decEq a c
    haveI := Expr.decEq b d
    exact decidable_of_iff (a = c ∧ b = d) (by simp)
  case letIn.letIn a b c d =>
    haveI := Eqtn.decEq a c
    haveI := Expr.decEq b d
    exact decidable_of_iff (a = c ∧ b = d) (by simp)
  case cond.cond a b c d e f =>
    haveI := Eqtn.decEq a d
    haveI := Expr.decEq b e
    haveI := Expr.decEqOption c f
    exact decidable_of_iff (a = d ∧ b = e ∧ c = f) (by simp)
  case case.case a b c d =>
    haveI := Expr.decEq a c
    haveI := Arm.decEqList b d
    exact decidable_of_iff (a = c ∧ b = d) (by simp)
  case new.new a b =>
    haveI := Expr.decEq a b
    exact decidable_of_iff (a = b) (by simp)
  case ident.ident a b => exact decidable_of_iff (a = b) (by simp)
  case block.block a b =>
    haveI := Stmt.decEqList a b
    exact decidable_of_iff (a = b) (by simp)
  case self.self => exact isTrue rfl
  case abs.abs a b c d =>
    haveI := Ptrn.decEq a c
    haveI := Expr.decEq b d
    exact decidable_of_iff (a = c ∧ b = d) (by simp)
  case const.const a b => exact decidable_of_iff (a = b) (by simp)
  case literal.literal a b => exact decidable_of_iff (a = b) (by simp)
  all_goals exact isFalse (by simp)

/-- Optional expressions are compared by what they hold. -/
def Expr.decEqOption : (a b : Option Expr) → Decidable (a = b)
  | none, none => isTrue rfl
  | none, some _ | some _, none => isFalse (by simp)
  | some a, some b =>
    haveI := Expr.decEq a b
    decidable_of_iff (a = b) (by simp)

/-- Equality of statements is decided along their structure. -/
def Stmt.decEq (a b : Stmt) : Decidable (a = b) := by
  cases a <;> cases b
  case expr.expr a b | become.become a b | throw.throw a b =>
    haveI := Expr.decEq a b
    exact decidable_of_iff (a = b) (by simp)
  case bind.bind a b =>
    haveI := Eqtn.decEq a b
    exact decidable_of_iff (a = b) (by simp)
  case send.send a b c d =>
    haveI := Expr.decEq a c
    haveI := Expr.decEq b d
    exact decidable_of_iff (a = c ∧ b = d) (by simp)
  case afterSend.afterSend a b c d e f =>
    haveI := Expr.decEq a d
    haveI := Expr.decEq b e
    haveI := Expr.decEq c f
    exact decidable_of_iff (a = d ∧ b = e ∧ c = f) (by simp)
  case create.create a b c d =>
    haveI := Expr.decEq b d
    exact decidable_of_iff (a = c ∧ b = d) (by simp)
  all_goals exact isFalse (by simp)

/-- Lists of statements are compared item by item. -/
def Stmt.decEqList : (a b : List Stmt) → Decidable (a = b)
  | [], [] => isTrue rfl
  | [], _ :: _ | _ :: _, [] => isFalse (by simp)
  | a :: as, b :: bs =>
    haveI := Stmt.decEq a b
    haveI := Stmt.decEqList as bs
    decidable_of_iff (a = b ∧ as = bs) (by simp)

/-- Equality of arms is decided along their structure. -/
def Arm.decEq : (a b : Arm) → Decidable (a = b)
  | .mk a b, .mk c d =>
    haveI := Ptrn.decEq a c
    haveI := Expr.decEq b d
    decidable_of_iff (a = c ∧ b = d) (by simp)

/-- Lists of arms are compared item by item. -/
def Arm.decEqList : (a b : List Arm) → Decidable (a = b)
  | [], [] => isTrue rfl
  | [], _ :: _ | _ :: _, [] => isFalse (by simp)
  | a :: as, b :: bs =>
    haveI := Arm.decEq a b
    haveI := Arm.decEqList as bs
    decidable_of_iff (a = b ∧ as = bs) (by simp)

/-- Equality of patterns is decided along their structure. -/
def Ptrn.decEq (a b : Ptrn) : Decidable (a = b) := by
  cases a <;> cases b
  case pair.pair a b c d =>
    haveI := Ptrn.decEq a c
    haveI := Ptrn.decEq b d
    exact decidable_of_iff (a = c ∧ b = d) (by simp)
  case any.any | self.self => exact isTrue rfl
  case value.value a b =>
    haveI := Expr.decEq a b
    exact decidable_of_iff (a = b) (by simp)
  case ident.ident a b => exact decidable_of_iff (a = b) (by simp)
  case const.const a b => exact decidable_of_iff (a = b) (by simp)
  case literal.literal a b => exact decidable_of_iff (a = b) (by simp)
  all_goals exact isFalse (by simp)

/-- Equality of equations is decided along their structure. -/
def Eqtn.decEq : (a b : Eqtn) → Decidable (a = b)
  | .mk a b, .mk c d =>
    haveI := Ptrn.decEq a c
    haveI := Ptrn.decEq b d
    decidable_of_iff (a = c ∧ b = d) (by simp)

end

instance : DecidableEq Expr := Expr.decEq

instance : DecidableEq Stmt := Stmt.decEq

instance : DecidableEq Arm := Arm.decEq

instance : DecidableEq Ptrn := Ptrn.decEq

instance : DecidableEq Eqtn := Eqtn.decEq

end Humus.Tree

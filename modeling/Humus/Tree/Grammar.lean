import Humus.Tree.Node
import Humus.Peg.Grammar

/-!
# The syntax grammar

The rules by which the tokens of a source are a program. A term in parentheses is matched once and
then perhaps applied, so that nested parentheses take no more than linear time. Empty parentheses
are never applied: `() (x)` is two terms.

## Main definitions

* `rules`: the rules
-/

namespace Humus.Syntactic

open Peg (Pattern)

/-- The number of the syntax grammar. -/
def grammarId : Nat := 1

/-- A rule of the syntax grammar. -/
def call (name : String) : Pattern Node :=
  .rule ⟨grammarId, name⟩

/-- A reserved word. -/
def word (k : Keyword) : Pattern Node :=
  .terminal (.token (.keyword k))

/-- A punctuation character. -/
def punct (c : Char) : Pattern Node :=
  .terminal (.token (.punct c))

/-- One token of a class. -/
def tokenClass (label : String) (test : Token → Bool) : Pattern Node :=
  .predicate label fun n => n.token?.any test

/-- An argument, which may be missing, in parentheses. -/
def argument : Pattern Node :=
  .sequence [punct '(', .optional (call "expr"), punct ')']

/-- The rules of the syntax grammar. -/
def rules : List (String × Pattern Node) := [
  ("humus", .sequence [.zeroOrMore (call "stmt"), .finish]),
  ("block", .sequence [punct '[', .zeroOrMore (call "stmt"), punct ']']),
  ("stmt", .choice [
    .sequence [word .let, call "eqtn", .not (word .in)],
    .sequence [.optional (.sequence [word .after, call "expr"]),
      word .send, call "expr", word .to, call "expr"],
    .sequence [word .create, call "ident", word .with, call "expr"],
    .sequence [word .become, call "expr"],
    .sequence [word .throw, call "expr"],
    call "expr"]),
  ("expr", .choice [
    .sequence [word .let, call "eqtn", word .in, call "expr"],
    .sequence [word .if, call "eqtn", call "expr",
      .zeroOrMore (.sequence [word .elif, call "eqtn", call "expr"]),
      .optional (.sequence [word .else, call "expr"])],
    .sequence [word .case, call "expr", word .of,
      .oneOrMore (.sequence [call "ptrn", punct ':', call "expr"]), word .end],
    .sequence [call "term", .optional (.sequence [punct ',', call "expr"])]]),
  ("term", .choice [.sequence [word .new, call "term"], call "const", call "call"]),
  ("call", .choice [
    .sequence [call "ident", .optional argument],
    .sequence [punct '(', .choice [
      .sequence [call "expr", punct ')', .optional argument],
      punct ')']]]),
  ("eqtn", .choice [
    .sequence [call "ident", punct '(', .optional (call "ptrn"), punct ')', punct '=',
      call "expr"],
    .sequence [call "ptrn", punct '=', call "ptrn"]]),
  ("ptrn", .sequence [call "pterm", .optional (.sequence [punct ',', call "ptrn"])]),
  ("pterm", .choice [
    word .any,
    .sequence [punct '$', call "term"],
    .sequence [punct '(', .optional (call "ptrn"), punct ')'],
    call "const",
    call "ident"]),
  ("const", .choice [
    call "block",
    word .self,
    .sequence [punct '\\', call "ptrn", punct '.', call "expr"],
    call "symbol",
    call "number",
    call "char",
    call "string",
    word .nil,
    word .true,
    word .false,
    word .undefined]),
  ("ident", tokenClass "identifier" fun t => t matches .ident _),
  ("symbol", tokenClass "symbol" fun t => t matches .symbol _),
  ("number", tokenClass "number" fun t => t matches .number _),
  ("char", tokenClass "character literal" fun t => t matches .char _),
  ("string", tokenClass "string literal" fun t => t matches .string _)]

end Humus.Syntactic

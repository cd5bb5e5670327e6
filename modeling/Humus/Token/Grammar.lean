import Humus.Text.Blank
import Humus.Tree.Node
import Humus.Peg.Grammar

/-!
# The token grammar

The rules by which the characters of a source are tokens. A lexeme is a symbol, a number, a
character, a string, a name or a punctuation character, the first of these that matches; `_` is
what may stand between two lexemes.

## Main definitions

* `rules`: the rules
* `nameChars`, `punctChars`, `escapeChars`: the classes of characters
-/

namespace Humus.Lexical

open Peg (Pattern RuleRef)

/-- The number of the token grammar. -/
def grammarId : Nat := 0

/-- A rule of the token grammar. -/
def call (name : String) : Pattern Node :=
  .rule ⟨grammarId, name⟩

/-- The characters of names that are neither letters nor digits. -/
def nameChars : List Char :=
  ['-', '!', '%', '&', '\'', '*', '+', '/', '?', '@', '^', '_', '~']

/-- The punctuation. -/
def punctChars : List Char :=
  ['#', '$', '(', ')', ',', '.', ':', ';', '=', '[', '\\', ']']

/-- The characters that a backslash gives a meaning to. -/
def escapeChars : List Char :=
  ['n', 'r', 't', '\'', '"', '[', ']', '\\']

/-- Whether `c` may stand in a name. -/
def isNameChar (c : Char) : Bool :=
  c.isAlphanum || nameChars.contains c

/-- Whether `c` is a hexadecimal digit. -/
def isHexDigit (c : Char) : Bool :=
  c.isDigit || ('a' ≤ c && c ≤ 'f') || ('A' ≤ c && c ≤ 'F')

/-- Exactly the character `c`. -/
def char (c : Char) : Pattern Node :=
  .terminal (.char c)

/-- One character of a class. -/
def charClass (label : String) (test : Char → Bool) : Pattern Node :=
  .predicate label fun n => n.char?.any test

/-- One hexadecimal digit. -/
def hexDigit : Pattern Node :=
  charClass "hex digit" isHexDigit

/-- The rules of the token grammar. -/
def rules : List (String × Pattern Node) := [
  ("tokens", .sequence [.zeroOrMore (call "token"), call "EOF"]),
  ("token", .sequence [call "_", call "lexeme"]),
  ("lexeme", .choice [call "symbol", call "number", call "char", call "string",
    call "ident", call "punct"]),
  ("symbol", .sequence [char '#', .choice [call "punct", call "name"]]),
  ("number", .sequence [
    .optional (char '-'),
    .oneOrMore (charClass "digit" Char.isDigit),
    .optional (.sequence [char '#', .oneOrMore (charClass "digit or letter" Char.isAlphanum)])]),
  ("char", .sequence [char '\'', .sequence [.not (char '\''), call "qchar"], char '\'']),
  ("string", .sequence [
    char '"', .zeroOrMore (.sequence [.not (char '"'), call "qchar"]), char '"']),
  ("qchar", .choice [
    .sequence [char '\\', charClass "escape character" escapeChars.contains],
    .sequence [char '\\', char 'u', hexDigit, hexDigit, hexDigit, hexDigit],
    .sequence [.not (char '\\'), .any]]),
  ("ident", call "name"),
  ("name", .oneOrMore (charClass "name character" isNameChar)),
  ("punct", charClass "punctuation" punctChars.contains),
  ("_", .zeroOrMore (.choice [call "comment", call "space"])),
  ("comment", .sequence [
    char '#',
    charClass "space or tab" fun c => c == ' ' || c == '\t',
    .zeroOrMore (.sequence [.not (call "EOL"), .any])]),
  ("EOL", .choice [char '\n', char '\r']),
  ("space", charClass "whitespace" Text.isBlank),
  ("EOF", .sequence [call "_", .finish])]

end Humus.Lexical

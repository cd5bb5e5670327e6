import Humus.Token.Grammar
import Humus.Reduction

/-!
# Reductions of the token grammar

What the rules of the token grammar make of the nodes below them: characters become texts, texts
become tokens, and what stands between two tokens becomes nothing.

## Main definitions

* `unescape?`, `unicodeEscape?`: the characters that escapes stand for
* `reductions`: the reduction of each rule that has one
* `grammar`: the token grammar
-/

namespace Humus.Lexical

/-! ## Escapes -/

/-- The character that a letter behind a backslash stands for. -/
def unescape? : Char → Option Char
  | 'n' => some '\n'
  | 'r' => some '\r'
  | 't' => some '\t'
  | '\'' => some '\''
  | '"' => some '"'
  | '[' => some '['
  | ']' => some ']'
  | '\\' => some '\\'
  | _ => none

/-- The character at a code point in hexadecimal digits. A surrogate, which is no character, is
replaced by U+FFFD. -/
def unicodeEscape? (digits : String) : Option Char :=
  (Number.magnitude? 16 digits.toList).map fun code =>
    if code.isValidChar then Char.ofNat code else Char.ofNat 0xfffd

/-! ## Rules -/

/-- The tokens of a source. -/
def reduceTokens : Reduction
  | _, .list [tokens, _] => .ok tokens
  | rule, n => malformed rule n

/-- A token without what precedes it. -/
def reduceToken : Reduction
  | _, .list [_, token] => .ok token
  | rule, n => malformed rule n

/-- A symbol is named by a punctuation character or by a name. -/
def reduceSymbol : Reduction
  | _, .list [_, .token (.punct c)] => .ok (.token (.symbol c.toString))
  | _, .list [_, .text name] => .ok (.token (.symbol name))
  | rule, .list [_, other] => malformed rule other
  | rule, n => malformed rule n

/-- The radix that digits denote. Digits that denote more than 32 bits denote no radix at all. -/
def radixOf (digits : String) : Nat :=
  match Number.magnitude? 10 digits.toList with
  | some radix => if radix < UInt32.size then radix else 0
  | none => 0

/-- Digits with a radix before them, or decimal digits. -/
def reduceNumber : Reduction
  | rule, .list [sign, leading, radixPart] =>
    let sign := sign.flatten.toList.head?
    match radixPart with
    | .list [] => .ok (.token (.number ⟨sign, 10, leading.flatten⟩))
    | .list [.list [_, digits]] =>
      .ok (.token (.number ⟨sign, radixOf leading.flatten, digits.flatten⟩))
    | .list [group] => malformed rule group
    | other => malformed rule other
  | rule, n => malformed rule n

/-- One character between quotes. -/
def reduceChar : Reduction
  | rule, .list [_, body, _] =>
    match body.flatten.toList with
    | [c] => .ok (.token (.char c))
    | _ => malformed rule body
  | rule, n => malformed rule n

/-- Characters between quotes. -/
def reduceString : Reduction
  | _, .list [_, body, _] => .ok (.token (.string body.flatten))
  | rule, n => malformed rule n

/-- The character that a quoted character stands for. -/
def quotedChar? : Node → Option Char
  | .list [.char '\\', .char c] => unescape? c
  | .list [.char '\\', .char 'u', a, b, c, d] =>
    unicodeEscape? (Node.list [a, b, c, d]).flatten
  | .list [.nothing, .char c] => some c
  | _ => none

/-- A quoted character, decoded. -/
def reduceQuotedChar : Reduction := fun rule n =>
  match quotedChar? n with
  | some c => .ok (.char c)
  | none => malformed rule n

/-- A name is a reserved word or an identifier. -/
def reduceIdent : Reduction
  | _, .text name =>
    match Keyword.ofSpelling? name with
    | some k => .ok (.token (.keyword k))
    | none => .ok (.token (.ident name))
  | rule, n => malformed rule n

/-- The characters of a name as a text. -/
def reduceName : Reduction := fun _ n => .ok (.text n.flatten)

/-- A punctuation character. -/
def reducePunct : Reduction
  | _, .char c => .ok (.token (.punct c))
  | rule, n => malformed rule n

/-- What stands between tokens is forgotten. -/
def reduceTrivia : Reduction := fun _ _ => .ok .nothing

/-- The reductions of the token grammar. -/
def reductions : List (String × Reduction) := [
  ("tokens", reduceTokens),
  ("token", reduceToken),
  ("symbol", reduceSymbol),
  ("number", reduceNumber),
  ("char", reduceChar),
  ("string", reduceString),
  ("qchar", reduceQuotedChar),
  ("ident", reduceIdent),
  ("name", reduceName),
  ("punct", reducePunct),
  ("_", reduceTrivia),
  ("EOF", reduceTrivia)]

/-- The token grammar. -/
def grammar : Peg.Grammar Node :=
  reducedGrammar rules reductions

end Humus.Lexical

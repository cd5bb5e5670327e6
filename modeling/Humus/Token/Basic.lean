import Humus.Token.Keyword
import Humus.Token.Number

/-!
# Tokens

## Main definitions

* `Token`: the smallest parts of a source
* `Token.text`: how a token is written
* `Token.kind`: the kind of a token, for a reader
-/

namespace Humus

open Text (Outline Json quotedChar quotedString)

/-- A smallest part of a source. -/
inductive Token where
  | keyword (k : Keyword)
  | punct (c : Char)
  | ident (name : String)
  | symbol (name : String)
  | string (s : String)
  | char (c : Char)
  | number (n : Number)
  deriving DecidableEq

namespace Token

/-- The reserved word that the token is. -/
def keyword? : Token → Option Keyword
  | .keyword k => some k
  | _ => none

/-- The kind of the token, for a reader. -/
def kind : Token → String
  | .keyword _ => "keyword"
  | .punct _ => "punctuation"
  | .ident _ => "identifier"
  | .symbol _ => "symbol"
  | .string _ => "string"
  | .char _ => "char"
  | .number _ => "number"

/-- How the token is written. Punctuation stands between quotes. -/
def text : Token → String
  | .keyword k => k.spelling
  | .punct c => "'" ++ c.toString ++ "'"
  | .ident name => name
  | .symbol name => "#" ++ name
  | .string s => quotedString s
  | .char c => quotedChar c
  | .number n => n.text

/-- The token in a trace. -/
def outline : Token → Outline
  | .keyword k => .applied "Keyword" [.word k.constructorName]
  | .punct c => .applied "Punct" [.char c]
  | .ident name => .applied "Ident" [.string name]
  | .symbol name => .applied "Symbol" [.string name]
  | .string s => .applied "String" [.string s]
  | .char c => .applied "Char" [.char c]
  | .number n => .applied "Number" [n.outline]

/-- The fields of the token in a document: its type and its value. -/
def fields : Token → List (String × Json)
  | .keyword k => [("type", .string "keyword"), ("value", .string k.spelling)]
  | .punct c => [("type", .string "punct"), ("value", .char c)]
  | .ident name => [("type", .string "ident"), ("value", .string name)]
  | .symbol name => [("type", .string "symbol"), ("value", .string name)]
  | .string s => [("type", .string "string"), ("value", .string s)]
  | .char c => [("type", .string "char"), ("value", .char c)]
  | .number n => [("type", .string "number"), ("value", n.json)]

/-- The token as a document. -/
def json (t : Token) : Json :=
  .object t.fields

end Token

end Humus

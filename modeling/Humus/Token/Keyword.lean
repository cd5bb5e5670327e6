/-!
# Keywords

The reserved words of Humus. The question mark and the underscore are reserved too.

## Main definitions

* `Keyword`: the reserved words
* `Keyword.spelling`, `Keyword.ofSpelling?`: how a word is written, and the word that is written so
-/

namespace Humus

/-- A reserved word. -/
inductive Keyword where
  | let
  | in
  | after
  | send
  | to
  | create
  | with
  | become
  | throw
  | if
  | elif
  | else
  | case
  | of
  | end
  | new
  | self
  | nil
  | true
  | false
  | undefined
  | any
  deriving DecidableEq

namespace Keyword

/-- All reserved words. -/
def all : List Keyword :=
  [.let, .in, .after, .send, .to, .create, .with, .become, .throw, .if, .elif, .else, .case, .of,
    .end, .new, .self, .nil, .true, .false, .undefined, .any]

/-- How the word is written. -/
def spelling : Keyword → String
  | .let => "LET"
  | .in => "IN"
  | .after => "AFTER"
  | .send => "SEND"
  | .to => "TO"
  | .create => "CREATE"
  | .with => "WITH"
  | .become => "BECOME"
  | .throw => "THROW"
  | .if => "IF"
  | .elif => "ELIF"
  | .else => "ELSE"
  | .case => "CASE"
  | .of => "OF"
  | .end => "END"
  | .new => "NEW"
  | .self => "SELF"
  | .nil => "NIL"
  | .true => "TRUE"
  | .false => "FALSE"
  | .undefined => "?"
  | .any => "_"

/-- The word in a trace. -/
def constructorName : Keyword → String
  | .let => "Let"
  | .in => "In"
  | .after => "After"
  | .send => "Send"
  | .to => "To"
  | .create => "Create"
  | .with => "With"
  | .become => "Become"
  | .throw => "Throw"
  | .if => "If"
  | .elif => "Elif"
  | .else => "Else"
  | .case => "Case"
  | .of => "Of"
  | .end => "End"
  | .new => "New"
  | .self => "SelfRef"
  | .nil => "Nil"
  | .true => "True"
  | .false => "False"
  | .undefined => "Undefined"
  | .any => "Any"

/-- The reserved word that is written so. -/
def ofSpelling? (s : String) : Option Keyword :=
  all.find? fun k => k.spelling = s

end Keyword

end Humus

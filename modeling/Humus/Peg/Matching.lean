import Humus.Peg.Network

/-!
# Matching

How the actors of a match handle a message. A pattern never calls another: it sends it a request
whose addressees hold the rest of its own work. So a match of any depth is a long sequence of
short steps.

## Main definitions

* `receive`: the handling of one delivery
* `matchPattern`: the handling of a request by a pattern
* `answerStream`: the handling of a customer by a stream
-/

namespace Humus.Peg

open Dispatch (Effect Script)

variable {V : Type}

/-! ## Sending -/

/-- Tell the customer of a success. -/
def succeed (customer : OnSuccess V) (s : Success V) : Effects V :=
  [.send (.success customer s)]

/-- Tell the customer of a failure. -/
def fail (customer : OnFailure V) (f : Failure V) : Effects V :=
  [.send (.failure customer f)]

/-- Ask `pattern` to match at `input`. -/
def ask (pattern : Pattern V) (input : Cursor V) (ok : OnSuccess V) (fail : OnFailure V) :
    Effects V :=
  [.send (.request pattern ⟨input, ok, fail⟩)]

/-- Answer a customer of a stream. -/
def deliver (customer : OnCursor V) (c : Cursor V) : Effects V :=
  [.send (.cursor customer c)]

/-- Ask for the cursor behind `c`. At the end nobody is asked. -/
def advance (c : Cursor V) (customer : OnCursor V) : Effects V :=
  match c with
  | .token _ _ rest => [.send (.ask rest customer)]
  | .finish _ | .stalled .. => []

/-- Take the token at the input and answer once the cursor behind it is known. -/
def consume (r : Request V) : Effects V :=
  match r.input.token? with
  | some value => advance r.input (.consumed r.input value r.ok)
  | none => []

/-- Refuse the input. -/
def reject (r : Request V) (expected : Expected V) : Effects V :=
  fail r.fail (.of r.input expected)

/-! ## Patterns -/

section Patterns

variable [MatchValue V]

/-- A success that consumed nothing. -/
def emptySuccess (here : Cursor V) : Success V :=
  ⟨here, here, MatchValue.nothing⟩

/-- Match the items of a sequence from `here` on. -/
def matchItems (start : Cursor V) (ok : OnSuccess V) (fail : OnFailure V) (here : Cursor V)
    (values : List V) : List (Pattern V) → Effects V
  | [] => succeed ok ⟨start, here, MatchValue.list values.reverse⟩
  | item :: rest => ask item here (.nextItem start rest values ok fail) (.backTo start fail)

/-- Try the alternatives of a choice. -/
def tryAlternatives (input : Cursor V) (ok : OnSuccess V) (onFailure : OnFailure V)
    (failed : Option (Failure V)) : List (Pattern V) → Effects V
  | [] =>
    match failed with
    | some f => fail onFailure (f.startingAt input)
    | none => fail onFailure (.unexpected input)
  | item :: rest => ask item input ok (.nextAlternative input rest failed ok onFailure)

/-- Ask for one more match of the body of a repetition. -/
def matchAgain (body : Pattern V) (needsOne : Bool) (start : Cursor V) (ok : OnSuccess V)
    (fail : OnFailure V) (here : Cursor V) (values : List V) : Effects V :=
  ask body here (.again body needsOne start values ok fail)
    (.enough needsOne start here values ok fail)

/-- End a repetition. -/
def finishRepetition (start : Cursor V) (ok : OnSuccess V) (stop : Cursor V) (values : List V) :
    Effects V :=
  succeed ok ⟨start, stop, MatchValue.list values.reverse⟩

/-- Whether a repetition with these values still has to match once. -/
def lacksOne (needsOne : Bool) (values : List V) : Bool :=
  needsOne && values.isEmpty

/-- Pass a request on to the body of a rule. The request seals the grammar of the rule, whether
the rule has a body or not. -/
def matchRule (ref : RuleRef) (r : Request V) (w : World V) : Effects V × World V :=
  match w.grammar? ref.grammar with
  | none => ([.halt (.detached ref.name)], w)
  | some g =>
    let w := w.sealGrammar ref.grammar
    match (g.rule? ref.name).getD {} with
    | { body := none, .. } => ([.halt (.undefined ref.name)], w)
    | { body := some body, transform } =>
      let ok := match transform with
        | none => r.ok
        | some f => .transform ref f r.ok
      (ask body r.input ok (.relabel ref.name r.fail), w)

variable [DecidableEq V]

/-- Handle a request. -/
def matchPattern (r : Request V) (w : World V) : Pattern V → Effects V × World V
  | .terminal value =>
    (if r.input.token? = some value then consume r else reject r (.token value), w)
  | .predicate label test =>
    (if r.input.token?.any test then consume r else reject r (.label label), w)
  | .any => (if r.input.isEnd then reject r .anyToken else consume r, w)
  | .finish =>
    (if r.input.isEnd then succeed r.ok (emptySuccess r.input) else reject r .endOfInput, w)
  | .sequence items => (matchItems r.input r.ok r.fail r.input [] items, w)
  | .choice items => (tryAlternatives r.input r.ok r.fail none items, w)
  | .zeroOrMore body => (matchAgain body false r.input r.ok r.fail r.input [], w)
  | .oneOrMore body => (matchAgain body true r.input r.ok r.fail r.input [], w)
  | .optional body => (ask body r.input (.found r.ok) (.missing r.input r.ok), w)
  | .not body => (ask body r.input (.unwanted r.input r.fail) (.absent r.input r.ok), w)
  | .rule ref => matchRule ref r w
  | .tally counter body => ([.send (.tallied counter body r)], w)
  | .silent => ([.send .ignored], w)

end Patterns

/-! ## Streams -/

namespace Cell

/-- Where the token of a cell stands: its offset counts tokens, its row and column are those of
`below` in the stream below. -/
def positionAt (cell : Cell V) (below : Cursor V) : Position :=
  ⟨cell.index, below.position.row, below.position.col⟩

/-- Match the token of a cell at `here`. -/
def lexAt (cell : Cell V) (id : Nat) (here : Cursor V) : Effects V :=
  ask cell.token here (.lexed id here) (.unlexed id here)

/-- Step over what precedes the token of a cell, then match the token. -/
def skipAt (cell : Cell V) (id : Nat) (here : Cursor V) : Effects V :=
  match cell.skip with
  | some skip => ask skip here (.skipped id) (.unskipped id here)
  | none => cell.lexAt id here

/-- The end that a cell comes to when its token is refused at `here`. A stall below is passed
on, the end of the stream below is an end, and anything else could not be read. -/
def endAt (cell : Cell V) (here : Cursor V) (failure : Failure V) : Cursor V :=
  match here with
  | .stalled _ lower => .stalled (cell.positionAt here) lower
  | .finish _ => .finish (cell.positionAt here)
  | .token .. => .stalled (cell.positionAt here) failure

end Cell

/-- Remember the cursor of a cell and answer those who waited for it, in the order in which they
asked. -/
def resolve (id : Nat) (c : Cursor V) (w : World V) : Effects V × World V :=
  let customers := match w.cells[id]? with
    | some { memo := .pending customers, .. } => customers
    | _ => []
  (customers.flatMap (deliver · c), w.setMemo id (.ready c))

/-- The token of a cell was matched, tried at `here`. A match that consumed nothing ends the
stream; any other is a token, and the next cell begins behind it. -/
def resolveMatch (cell : Cell V) (id : Nat) (here : Cursor V) (s : Success V) (w : World V) :
    Effects V × World V :=
  if s.consumed = 0 then resolve id (.finish (cell.positionAt here)) w
  else
    let (next, w) := w.addCell
      { cell with base := .cursor s.stop, index := cell.index + 1, memo := .idle }
    resolve id (.token (cell.positionAt s.start) s.value (.derived next)) w

/-- Ask a cell for its cursor. The first customer starts the computation, and those who ask
before its end wait. -/
def askCell (id : Nat) (customer : OnCursor V) (w : World V) : Effects V × World V :=
  match w.cells[id]? with
  | none => ([], w)
  | some cell =>
    match cell.memo with
    | .ready c => (deliver customer c, w)
    | .pending customers => ([], w.setMemo id (.pending (customers ++ [customer])))
    | .idle =>
      let w := w.setMemo id (.pending [customer])
      match cell.base with
      | .cursor c => (cell.skipAt id c, w)
      | .stream s => ([.send (.ask s (.reader id))], w)

/-- The cursor at the head of a text. -/
def charCursor [MatchValue V] (position : Position) : List Char → Cursor V
  | [] => .finish position
  | c :: text => .token position (MatchValue.ofChar c) (.chars text (position.after c))

/-- The cursor at the head of a list of tokens. -/
def valueCursor (index : Nat) : List V → Cursor V
  | [] => .finish ⟨index, 0, index⟩
  | value :: items => .token ⟨index, 0, index⟩ value (.values items (index + 1))

/-- Ask a stream for its cursor. -/
def answerStream [MatchValue V] (customer : OnCursor V) (w : World V) :
    Stream V → Effects V × World V
  | .chars text position => (deliver customer (charCursor position text), w)
  | .values items index => (deliver customer (valueCursor index items), w)
  | .fixed c => (deliver customer c, w)
  | .derived id => askCell id customer w
  | .silent => ([], w)

/-! ## Addressees -/

/-- Do something with a cell. -/
@[inline]
def withCell (id : Nat) (w : World V) (f : Cell V → Effects V × World V) : Effects V × World V :=
  match w.cells[id]? with
  | some cell => f cell
  | none => ([], w)

section Addressees

variable [MatchValue V]

/-- Go on after a success. -/
def onSuccess (s : Success V) (w : World V) : OnSuccess V → Effects V × World V
  | .report matcher => ([], { w with answers := ⟨matcher, .ok s⟩ :: w.answers })
  | .nextItem start rest values ok fail =>
    (matchItems start ok fail s.stop (s.value :: values) rest, w)
  | .again body needsOne start values ok fail =>
    (if s.consumed = 0 then
      finishRepetition start ok s.stop
        (if lacksOne needsOne values then s.value :: values else values)
    else matchAgain body needsOne start ok fail s.stop (s.value :: values), w)
  | .found ok => (succeed ok { s with value := MatchValue.list [s.value] }, w)
  | .unwanted here onFailure => (fail onFailure (.unexpected here), w)
  | .transform ref f ok =>
    let w := { w with invocations := ⟨ref, s.value, s.span⟩ :: w.invocations }
    match f ref.name s.value s.span with
    | .ok value => (succeed ok { s with value }, w)
    | .error reason => ([.halt (.transform ref.name reason)], w)
  | .skipped id => withCell id w fun cell => (cell.lexAt id s.stop, w)
  | .lexed id here => withCell id w fun cell => resolveMatch cell id here s w

/-- Go on after a failure. -/
def onFailure [DecidableEq V] (f : Failure V) (w : World V) : OnFailure V → Effects V × World V
  | .report matcher => ([], { w with answers := ⟨matcher, .error f⟩ :: w.answers })
  | .backTo start customer => (fail customer (f.startingAt start), w)
  | .nextAlternative input rest failed ok customer =>
    let failed := match failed with
      | some earlier => earlier.merge f
      | none => f
    (tryAlternatives input ok customer (some failed) rest, w)
  | .enough needsOne start here values ok customer =>
    (if lacksOne needsOne values then fail customer (f.startingAt start)
    else finishRepetition start ok here values, w)
  | .missing here ok => (succeed ok ⟨here, here, MatchValue.list []⟩, w)
  | .absent here ok => (succeed ok (emptySuccess here), w)
  | .relabel rule customer => (fail customer (f.relabel rule), w)
  | .unskipped id here => withCell id w fun cell => (cell.lexAt id here, w)
  | .unlexed id here => withCell id w fun cell => resolve id (cell.endAt here f) w

/-- Go on with the cursor of a stream. -/
def onCursor (c : Cursor V) (w : World V) : OnCursor V → Effects V × World V
  | .consumed start value ok => (succeed ok ⟨start, c, value⟩, w)
  | .matcher pattern ok fail => (ask pattern c ok fail, w)
  | .walker => (advance c .walker, { w with walked := c :: w.walked })
  | .reader id => withCell id w fun cell => (cell.skipAt id c, w)

/-- The handling of one delivery. -/
def receive [DecidableEq V] : Script (World V) (Delivery V) Fault := fun delivery w =>
  match delivery with
  | .request pattern r => matchPattern r w pattern
  | .tallied counter body r => (ask body r.input r.ok r.fail, w.count counter)
  | .ignored => ([], w)
  | .success customer s => onSuccess s w customer
  | .failure customer f => onFailure f w customer
  | .cursor customer c => onCursor c w customer
  | .ask stream customer => answerStream customer w stream

end Addressees

end Humus.Peg

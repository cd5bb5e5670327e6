import Humus.Workbench.Recipe

/-!
# The workbench

A workbench holds named grammars, patterns and streams, and runs matches on them one after the
other. Derived streams keep what they have computed from one run to the next.

## Main definitions

* `Sketch`, `Supply`: patterns and streams described with names
* `Bench`: the named things, and what their matches have changed
* `Bench.build`, `Bench.supply`: the pattern and the stream of a description
-/

namespace Humus.Workbench

open Dispatch (Stop)
open Peg

/-- A pattern described with names. -/
inductive Sketch where
  | any
  | finish
  | silent
  | value (v : Value)
  /-- The characters of a text, one after the other. -/
  | literal (text : String)
  /-- A token of the class, which may have a label. -/
  | member (label : Option String) (tokens : TokenClass)
  | sequence (items : List Sketch)
  | choice (items : List Sketch)
  | zeroOrMore (body : Sketch)
  | oneOrMore (body : Sketch)
  | optional (body : Sketch)
  | not (body : Sketch)
  /-- A rule of a named grammar. -/
  | rule (grammar name : String)
  /-- A saved pattern; any token if nothing was saved under the name. -/
  | saved (name : String)
  | tally (counter : String) (body : Sketch)
  deriving Inhabited

/-- A stream described with names. -/
inductive Supply where
  | string (text : String)
  | values (items : List Value)
  /-- The stream that a grammar derives from another. -/
  | derived (source : Supply) (skip : Option Sketch) (token : Sketch)
  /-- One cursor of a stream, or an end if the stream has no such cursor. -/
  | cursorAt (source : Supply) (index : Nat)
  /-- An end at a position. -/
  | finish (position : Position)
  /-- A saved stream; an empty one if nothing was saved under the name. -/
  | saved (name : String)
  | silent
  deriving Inhabited

/-- The named things, and what their matches have changed. -/
structure Bench where
  world : World Value := {}
  /-- The number of the grammar that each name stands for. -/
  grammars : List (String × Nat) := []
  patterns : List (String × Pattern Value) := []
  streams : List (String × Stream Value) := []
  /-- How many notes a use of the transform of a rule takes, the latest transform first. -/
  notes : List (RuleRef × Nat) := []
  /-- The notes taken, newest first. -/
  log : List (Invocation Value) := []

namespace Bench

/-! ## Grammars -/

/-- The number of the grammar of this name, which is made on its first mention. -/
def grammarId (b : Bench) (name : String) : Nat × Bench :=
  match b.grammars.lookup name with
  | some id => (id, b)
  | none =>
    let (id, world) := b.world.addGrammar .empty
    (id, { b with world, grammars := (name, id) :: b.grammars })

/-- The grammar of this name. -/
def grammar (b : Bench) (name : String) : Grammar Value × Bench :=
  let (id, b) := b.grammarId name
  ((b.world.grammar? id).getD .empty, b)

/-- Forget the grammar of this name. Answers whether there was one. -/
def drop (b : Bench) (name : String) : Bool × Bench :=
  match b.grammars.lookup name with
  | none => (false, b)
  | some id =>
    (true, { b with
      world := b.world.setGrammar id none
      grammars := b.grammars.filter (·.1 ≠ name) })

/-- Put a new grammar in the place of the one of this name. -/
def renew (b : Bench) (name : String) : Bench :=
  ((b.drop name).2.grammarId name).2

/-- A reference to a rule, of which its grammar takes note. -/
def mention (b : Bench) (grammar name : String) : RuleRef × Bench :=
  let (id, b) := b.grammarId grammar
  let g := (b.world.grammar? id).getD .empty
  (⟨id, name⟩, { b with world := b.world.setGrammar id (some (g.mention name)) })

/-- Give a rule its body. -/
def define (b : Bench) (grammar name : String) (body : Pattern Value) :
    Except Fault RuleRef × Bench :=
  let (id, b) := b.grammarId grammar
  match ((b.world.grammar? id).getD .empty).define name body with
  | .error fault => (.error fault, b)
  | .ok g => (.ok ⟨id, name⟩, { b with world := b.world.setGrammar id (some g) })

/-- Give a rule a transform. -/
def transform (b : Bench) (grammar name : String) (recipe : Recipe) : Except Fault Unit × Bench :=
  let (id, b) := b.grammarId grammar
  match ((b.world.grammar? id).getD .empty).transform name recipe.transform with
  | .error fault => (.error fault, b)
  | .ok g =>
    (.ok (), { b with
      world := b.world.setGrammar id (some g)
      notes := (⟨id, name⟩, recipe.notes) :: b.notes })

/-- End the definition of a grammar. -/
def close (b : Bench) (grammar : String) : Except Fault Unit × Bench :=
  let (id, b) := b.grammarId grammar
  let (result, g) := ((b.world.grammar? id).getD .empty).close
  (result, { b with world := b.world.setGrammar id (some g) })

/-! ## Patterns -/

mutual

/-- The pattern of a description. Every rule in it is mentioned to its grammar. -/
def build : Sketch → Bench → Pattern Value × Bench
  | .any, b => (.any, b)
  | .finish, b => (.finish, b)
  | .silent, b => (.silent, b)
  | .value v, b => (.terminal v, b)
  | .literal text, b => (.sequence (text.toList.map fun c => .terminal (.char c)), b)
  | .member (some label) tokens, b => (.predicate label tokens.test, b)
  | .member none tokens, b => (.matching tokens.test, b)
  | .sequence items, b => let (ps, b) := buildAll items b; (.sequence ps, b)
  | .choice items, b => let (ps, b) := buildAll items b; (.choice ps, b)
  | .zeroOrMore body, b => let (p, b) := build body b; (.zeroOrMore p, b)
  | .oneOrMore body, b => let (p, b) := build body b; (.oneOrMore p, b)
  | .optional body, b => let (p, b) := build body b; (.optional p, b)
  | .not body, b => let (p, b) := build body b; (.not p, b)
  | .rule grammar name, b => let (ref, b) := b.mention grammar name; (.rule ref, b)
  | .saved name, b => ((b.patterns.lookup name).getD .any, b)
  | .tally counter body, b =>
    let (p, b) := build body b
    (.tally counter p, { b with world := b.world.addCounter counter })

/-- The patterns of several descriptions. -/
def buildAll : List Sketch → Bench → List (Pattern Value) × Bench
  | [], b => ([], b)
  | s :: ss, b =>
    let (p, b) := build s b
    let (ps, b) := buildAll ss b
    (p :: ps, b)

end

/-- Save a pattern under a name. -/
def savePattern (b : Bench) (name : String) (p : Pattern Value) : Bench :=
  { b with patterns := (name, p) :: b.patterns }

/-! ## Runs -/

/-- Take the notes that the transforms of the last run asked for. -/
def takeNotes (b : Bench) : Bench :=
  let noted := b.world.invocations.flatMap fun i =>
    List.replicate ((b.notes.lookup i.ref).getD 0) i
  { b with world := { b.world with invocations := [] }, log := noted ++ b.log }

/-- Run something on the world of the bench. -/
def run {α : Type} (b : Bench) (f : World Value → Option (α × World Value)) :
    Option (α × Bench) :=
  (f b.world).map fun (a, world) => (a, { b with world }.takeNotes)

/-- All cursors of a stream. -/
def collect (fuel : Nat) (limit : Option Nat) (stream : Stream Value) (b : Bench) :
    Option (Except (Stop Fault) (List (Cursor Value)) × Bench) :=
  b.run (Peg.collect fuel limit stream)

/-- Match a pattern at the first cursor of a stream. -/
def parse (fuel : Nat) (limit : Option Nat) (pattern : Pattern Value) (stream : Stream Value)
    (b : Bench) : Option (Outcome Value × Bench) :=
  b.run (Peg.parse fuel limit pattern stream)

/-- Match a pattern at a cursor. -/
def parseAt (fuel : Nat) (limit : Option Nat) (pattern : Pattern Value) (c : Cursor Value)
    (b : Bench) : Option (Outcome Value × Bench) :=
  b.run (Peg.parseAt fuel limit pattern c)

/-- Match one pattern on several streams on one event loop. -/
def startAll (fuel : Nat) (limit : Option Nat) (pattern : Pattern Value)
    (streams : List (Stream Value)) (b : Bench) : Option (JointOutcome Value × Bench) :=
  b.run (Peg.startAll fuel limit (streams.map fun stream => (pattern, stream)))

/-- The notes taken so far, in order, which are then forgotten. -/
def takeLog (b : Bench) : List (Invocation Value) × Bench :=
  (b.log.reverse, { b with log := [] })

/-! ## Streams -/

/-- The stream of a description. `none` when a walk along a stream ran out of fuel. -/
def supply (fuel : Nat) : Supply → Bench → Option (Stream Value × Bench)
  | .string text, b => some (.ofString text, b)
  | .values items, b => some (.ofList items, b)
  | .derived source skip token, b => do
    let (source, b) ← supply fuel source b
    let (skip, b) := match skip with
      | some s => let (p, b) := build s b; (some p, b)
      | none => (none, b)
    let (token, b) := build token b
    let (stream, world) := b.world.derive source skip token
    return (stream, { b with world })
  | .cursorAt source index, b => do
    let (source, b) ← supply fuel source b
    let (cursors, b) ← b.collect fuel none source
    let c := match cursors with
      | .ok cursors => cursors[index]?
      | .error _ => none
    return (.fixed (c.getD (.finish .start)), b)
  | .finish position, b => some (.fixed (.finish position), b)
  | .saved name, b => some ((b.streams.lookup name).getD (.ofString ""), b)
  | .silent, b => some (.silent, b)

/-- The streams of several descriptions. -/
def supplyAll (fuel : Nat) : List Supply → Bench → Option (List (Stream Value) × Bench)
  | [], b => some ([], b)
  | s :: ss, b => do
    let (stream, b) ← supply fuel s b
    let (streams, b) ← supplyAll fuel ss b
    return (stream :: streams, b)

/-- Save a stream under a name. -/
def saveStream (b : Bench) (name : String) (s : Stream Value) : Bench :=
  { b with streams := (name, s) :: b.streams }

end Bench

end Humus.Workbench

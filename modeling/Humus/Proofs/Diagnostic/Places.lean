import Humus.Command.Phase
import Humus.Proofs.Diagnostic.Report
import Humus.Proofs.Source.Lines
import Humus.Proofs.Token.Texts
import Humus.Proofs.Tree.LexicalErrors

/-!
# The places of diagnostics

A diagnostic of a source marks a place of the source. There stands what the diagnostic says was
found: a token that was refused, a character that no token goes on with, or the end. The place is
known from its row and column, which the cursors of tokens take over from the characters below them.

## Main definitions

* `Stands source p text found`: what was found at `p` stands at the begin of the text
* `Points source p found`: it stands at a place of the source whose row and column are those of `p`
* `Marks source d l`: the label of a diagnostic marks what the diagnostic has found

## Main results

* `exists_walks_placed`: the tokens of a source, its end and its stalls point at the source
* `diagnostics_point_at_source`: the labels of the phases, and the marks of a report
-/

namespace Humus

open Dispatch (Terminates)
open Peg (Cursor Failure Place Walks)

/-- The token is one of the tokens of the source, and is read at the position. -/
def HasToken (source : String) (p : Position) (t : Token) : Prop :=
  Terminates (fun fuel => collectTokens fuel source) fun r =>
    ∃ cs, r.1 = .ok cs ∧ ⟨t, p⟩ ∈ cs.filterMap tokenOf?

/-- What was found at the position `p` of the source stands at the begin of the text: a token of the
source, a character, or the end. -/
inductive Stands (source : String) (p : Position) : (text : List Char) → (found : String) → Prop where
  | token {l t rest} : HasToken source p t → IsLexeme l t → Stands source p (l ++ rest) t.text
  | char {c rest} : Stands source p (c :: rest) (Text.quotedChar c)
  | finish : Stands source p [] "end of input"

/-- Only at the end the end is found. -/
theorem Stands.eq_nil_iff {source : String} {p : Position} {text : List Char} {found : String}
    (h : Stands source p text found) : text = [] ↔ found = "end of input" := by
  cases h with
  | token _ hl =>
    refine iff_of_false (fun he => hl.1 (List.append_eq_nil_iff.mp he).1) hl.text_ne
  | char =>
    refine iff_of_false (List.cons_ne_nil _ _) fun he => ?_
    have hhead := congrArg (fun s => s.toList.head?) he
    simp [Text.quotedChar] at hhead
  | finish => exact iff_of_true rfl rfl

/-- What was found stands at the row and column of `p` in the source. -/
def Points (source : String) (p : Position) (found : String) : Prop :=
  ∃ before behind, source.toList = before ++ behind ∧
    p.row = before.count '\n' ∧ p.col = columnBehind before ∧ Stands source p behind found

/-! ## The places of tokens -/

/-- What a message says of the token at a cursor. -/
def foundText (token : Option Node) : String :=
  (token.map Node.describe).getD "end of input"

theorem foundText_furthest (f : Failure Node) : foundText f.furthest.token? = f.found := by
  rw [Failure.found]
  cases f.furthest.token? <;> rfl

/-- The place points at the source, and a stall does so with its furthest position. -/
inductive Placed (source : String) : Place Node → Prop where
  | token {p t rest} : Points source p t.text → Placed source (.token p (.token t) rest)
  | finish {p} : Points source p "end of input" → Placed source (.finish p)
  | stalled {p stall} : Points source stall.furthest (foundText stall.found) →
      Placed source (.stalled p stall)

theorem Leaves.placed {source : String} {text rest : List Char} {x : Place Node}
    (h : Leaves (Position.start.behind text) rest x) (hsource : source.toList = text ++ rest) :
    Placed source x := by
  cases h with
  | finish =>
    refine .finish ⟨text, [], hsource, ?_, ?_, .finish⟩ <;> rw [Position.behind_start]
  | stalled _ _ hfound =>
    obtain ⟨eaten, left, hrest, hfurthest, hfound⟩ := hfound
    refine .stalled ⟨text ++ eaten, left, ?_, ?_, ?_, ?_⟩
    · rw [hsource, hrest, List.append_assoc]
    · rw [hfurthest, ← Position.behind_append, Position.behind_start]
    · rw [hfurthest, ← Position.behind_append, Position.behind_start]
    · rw [hfound]
      cases left with
      | nil => exact .finish
      | cons c left => exact .char

/-- **The tokens of a source, its end and its stalls point at the source.** -/
theorem exists_walks_placed (source : String) :
    ∃ xs, Walks frontEnd.rulebook (tokenSource source) xs ∧ ∀ x ∈ xs, Placed source x := by
  have hbelow : Peg.Reads frontEnd.rulebook (.chars source.toList .start)
      (.ok (Peg.charPlace (Position.start.behind []) source.toList)) := Peg.reads_iff.mpr .chars
  obtain ⟨xs, last, text, rest, hsource, hwalks, hlast, hparts, hleaves⟩ :=
    exists_partition [] source.toList hbelow 0
  obtain ⟨ys, hys, htokens⟩ := exists_walks_tokenSource source
  obtain rfl := hwalks.unique hys
  refine ⟨ys, hwalks, fun x hx => ?_⟩
  -- Every place but the last one is a token of the partition.
  cases hv : x.token? with
  | none =>
    have hx' := hwalks.getLast?_of_mem hx hv
    rw [hlast] at hx'
    cases hx'
    exact hleaves.placed hsource
  | some v =>
    obtain ⟨t, rfl⟩ := htokens v (List.mem_filterMap.mpr ⟨x, hx, hv⟩)
    match x, hv with
    | .token p _ τ, rfl =>
      have hplaced : PlacedToken.mk t p ∈ ys.filterMap tokenAt? :=
        List.mem_filterMap.mpr ⟨_, hx, rfl⟩
      obtain ⟨w, l, rest', rfl, hl, hrow, hcol⟩ := hparts.exists_of_mem hplaced
      have htoken : HasToken source p t := by
        refine (exists_collect_tokenStream hwalks).imp ?_
        rintro r ⟨cs, chart, hcs, hplaces⟩
        exact ⟨cs, hcs, filterMap_tokenOf?_eq hplaces ▸ hplaced⟩
      refine .token ⟨w, l ++ (rest' ++ rest), ?_, hrow, hcol, .token htoken hl⟩
      rw [hsource]
      simp only [List.append_assoc]

/-! ## The places of failures -/

variable {source : String} {xs : List (Place Node)} {fuel : Nat} {limit : Option Nat}
  {f : Failure Node}

/-- A failure at a token of a source, or at its end, points at the source. -/
theorem Placed.points {chart : Peg.Chart Node} {x : Place Node} (h : Placed source x)
    (hplace : f.furthest.place? chart = some x) (hstall : f.furthest.stall? = none) :
    Points source f.furthest.position f.found := by
  rw [← foundText_furthest, ← Cursor.position_of_place? hplace, ← Cursor.token?_of_place? hplace]
  have hstall' := Cursor.stall?_of_place? hplace
  rw [hstall] at hstall'
  cases h with
  | token h | finish h => exact h
  | stalled => cases hstall'

/-- The failure that ended the tokens of a source points at the source. -/
theorem Placed.points_stall {x : Place Node} (h : Placed source x) (hstall : x.stall? = some f.stall) :
    Points source f.furthest.position f.found := by
  rw [← foundText_furthest]
  cases h with
  | token | finish => cases hstall
  | stalled h => cases hstall; exact h

/-- What no token can be read of is where a lexical error points. -/
theorem points_of_tokenize {e : LexError} (h : tokenize fuel limit source = some (.error e)) :
    (∃ f, e = .stalled f ∧ Points source f.furthest.position f.found) ∨ ∃ stop, e = .halted stop := by
  obtain ⟨xs, hwalks, hplaced⟩ := exists_walks_placed source
  obtain ⟨ys, hys, htokens⟩ := exists_walks_tokenSource source
  obtain rfl := hwalks.unique hys
  obtain ⟨chart, hw, hs⟩ := exists_chart_tokenStream source
  obtain ⟨⟨result, w'⟩, hrun, h⟩ := Option.bind_eq_some_iff.mp h
  -- A source that can be walked through is collected, unless the limit comes first.
  rcases Peg.collect_ends hw hs (Nat.lt_succ_self _) hrun with
    ⟨k, -, rfl⟩ | ⟨g, rfl, -⟩ | ⟨cs, -, hbroken, -⟩ | ⟨cs, zs, chart', rfl, hzs, hplaces, -⟩
  · cases h
    exact .inr ⟨_, rfl⟩
  · cases h
    exact .inr ⟨_, rfl⟩
  · exact absurd hwalks (hbroken _)
  · obtain rfl := hwalks.unique hzs
    obtain ⟨x, hx, hlexes⟩ := lexes_tokensOf hwalks htokens hplaces
    rw [Option.some.inj h] at hlexes
    cases hlexes with
    | stalled =>
      exact .inl ⟨_, rfl, (hplaced _ (List.mem_of_getLast? hx)).points_stall rfl⟩

/-! ## The places of labels -/

/-- The label marks the place between `before` and `behind` in the source, which is in the line
`line`. There stands what the diagnostic has found. -/
structure Marks (source : String) (d : Diagnostic) (l : Label) (before behind line : List Char)
    (found : String) : Prop where
  toList_eq : source.toList = before ++ behind
  row_eq : l.position.row = before.count '\n'
  col_eq : l.position.col = columnBehind before
  line_eq : (splitLines source.toList)[l.position.row]? = some line
  col_le : l.position.col ≤ line.length
  /-- From the column on, the line is what stands behind the place. -/
  drop_eq : line.drop l.position.col = behind.takeWhile (· != '\n')
  message_eq : d.message = l.message ++ ", found " ++ found
  stands : Stands source l.position behind found
  nil_iff : behind = [] ↔ found = "end of input"

/-- All labels of the diagnostic mark what it has found in the source. -/
def Diagnostic.MarksAll (source : String) (d : Diagnostic) : Prop :=
  ∀ l ∈ d.labels, ∃ before behind line found, Marks source d l before behind line found

theorem marks_of_points {d : Diagnostic} {l : Label} {found : String}
    (h : Points source l.position found) (hmessage : d.message = l.message ++ ", found " ++ found) :
    ∃ before behind line, Marks source d l before behind line found := by
  obtain ⟨before, behind, htext, hrow, hcol, hstands⟩ := h
  -- the line consists of as many characters as the column says, and of what stands there
  have hlength : columnBehind before = (lastLine before).length := by
    rw [lastLine, List.length_reverse, columnBehind]
  refine ⟨before, behind, lastLine before ++ behind.takeWhile (· != '\n'), htext, hrow, hcol, ?_, ?_,
    ?_, hmessage, hstands, hstands.eq_nil_iff⟩
  · rw [hrow, htext, getElem?_splitLines]
  · rw [hcol, hlength, List.length_append]
    exact Nat.le_add_right _ _
  · rw [hcol, hlength, List.drop_left]

theorem marksAll_ofFailure (h : Points source f.furthest.position f.found) (code : ErrorCode) :
    (Diagnostic.ofFailure code f).MarksAll source := by
  intro l hl
  obtain rfl := List.mem_singleton.mp hl
  obtain ⟨before, behind, line, hmarks⟩ := marks_of_points (d := .ofFailure code f)
    (l := ⟨f.furthest.position, 1, f.description, true⟩) h rfl
  exact ⟨before, behind, line, _, hmarks⟩

theorem marksAll_of_labels {d : Diagnostic} (h : d.labels = []) : d.MarksAll source := by
  intro l hl
  rw [h] at hl
  cases hl

theorem marksAll_ofStop (stop : Dispatch.Stop Peg.Fault) :
    (Diagnostic.ofStop stop).MarksAll source := by
  cases stop <;> exact marksAll_of_labels rfl

theorem marksAll_stalled (h : Points source f.furthest.position f.found) :
    (LexError.stalled f).diagnostic.MarksAll source :=
  -- the note that is added to a failure is no part of what is marked
  fun l hl =>
    have ⟨before, behind, line, found, hmarks⟩ := marksAll_ofFailure h .lexical l hl
    ⟨before, behind, line, found, { hmarks with }⟩

theorem marksAll_of_tokenize {e : LexError}
    (h : tokenize fuel limit source = some (.error e)) : e.diagnostic.MarksAll source := by
  rcases points_of_tokenize h with ⟨f, rfl, hf⟩ | ⟨stop, rfl⟩
  · exact marksAll_stalled hf
  · exact marksAll_ofStop stop

theorem marksAll_of_readPattern {p : Peg.Pattern Node} {resume : String} {e : ParseError}
    (h : readPattern fuel limit p resume source = some (.error e)) :
    e.diagnostic.MarksAll source := by
  obtain ⟨xs, hwalks, hplaced⟩ := exists_walks_placed source
  have hnotices := readPattern_notices hwalks h
  generalize hr : Except.error e = r at hnotices
  cases hnotices with
  | matched => cases hr
  | @stalled c chart x f hx hc hstall =>
    cases hr
    have hxstall : x.stall? = some f.stall := by
      rw [Cursor.stall?_of_place? hc, hstall]
      rfl
    exact marksAll_stalled ((hplaced x hx).points_stall hxstall)
  | refused hx hplace hstall =>
    cases hr
    exact marksAll_ofFailure ((hplaced _ hx).points hplace hstall) _
  | @halted stop => cases hr; exact marksAll_ofStop stop
  | incomplete => cases hr; exact marksAll_of_labels rfl

theorem exists_of_stmtsOf_error {ns : List Node} {e : ParseError} (h : stmtsOf ns = .error e) :
    ∃ expected found, e = .unreduced expected found := by
  have hpasses := stmtsOf_passes ns
  rw [h] at hpasses
  cases hpasses with
  | unreduced => exact ⟨_, _, rfl⟩

theorem marksAll_of_parseProgram {e : ParseError}
    (h : parseProgram fuel limit source = some (.error e)) : e.diagnostic.MarksAll source := by
  obtain ⟨r, hread, h⟩ := Option.bind_eq_some_iff.mp h
  cases r with
  | error e' =>
    cases h
    exact marksAll_of_readPattern hread
  | ok n =>
    cases n with
    | list ns =>
      obtain ⟨_, _, rfl⟩ := exists_of_stmtsOf_error (Option.some.inj h)
      exact marksAll_of_labels rfl
    | _ => cases h; exact marksAll_of_labels rfl

/-- **Every label of a phase marks what was found in the source.** -/
theorem marksAll_of_run {phase : Phase} {o : Options} {d : Diagnostic}
    (h : Phase.run fuel phase o source = some (.error d)) : d.MarksAll source := by
  cases phase with
  | tokens =>
    obtain ⟨r, hr, h⟩ := Option.bind_eq_some_iff.mp h
    cases r with
    | ok => cases h
    | error e => cases h; exact marksAll_of_tokenize hr
  | tree =>
    obtain ⟨r, hr, h⟩ := Option.bind_eq_some_iff.mp h
    cases r with
    | ok => cases h
    | error e => cases h; exact marksAll_of_parseProgram hr
  | behavior =>
    obtain ⟨r, hr, h⟩ := Option.bind_eq_some_iff.mp h
    cases r with
    | error e => cases h; exact marksAll_of_parseProgram hr
    | ok stmts =>
      cases hb : lowerProgram stmts with
      | ok b => simp [hb, Except.mapError, bind, Except.bind, pure, Except.pure] at h
      | error e =>
        simp [hb, Except.mapError, bind, Except.bind, pure] at h
        subst h
        exact marksAll_of_labels rfl

/-- **Diagnostics point at the source.** Whatever the limit, each label of a diagnostic of a phase
marks a place of the source. Its row is a line of the source, which a report quotes, and its column
is at most the length of this line. There stands the token or the character that the message says
was found, and the source ends there exactly if it says the end of the input. In a report without
colors, the line that a label quotes and the line of its mark have their bars in one column, and the
mark stands under the column of the label. -/
theorem diagnostics_point_at_source :
    (∀ fuel phase o source d, Phase.run fuel phase o source = some (.error d) → ∀ l ∈ d.labels,
      ∃ before behind line found, Marks source d l before behind line found ∧
        ∀ r : Report, ∀ name, r.source = some ⟨name, source⟩ →
          r.quotedLine? l = some (dropTrailing '\r' line)) ∧
    ∀ (r : Report) (quoted : NamedSource) (l : Label) (line : List Char), r.colors = false →
      r.source = some quoted → (splitLines quoted.text.toList)[l.position.row]? = some line →
      ∃ place bar pad, r.label l = place ++ "\n" ++ Report.quoteLine l (dropTrailing '\r' line) ++
          "\n" ++ r.markLine l (dropTrailing '\r' line) ++ "\n" ∧
        Underlines (dropTrailing '\r' line) l (Report.quoteLine l (dropTrailing '\r' line))
          (r.markLine l (dropTrailing '\r' line)) bar pad := by
  constructor
  · intro fuel phase o source d h l hl
    obtain ⟨before, behind, line, found, hmarks⟩ := marksAll_of_run h l hl
    exact ⟨before, behind, line, found, hmarks,
      fun r name hsource => Report.quotedLine?_eq hsource hmarks.line_eq⟩
  · intro r quoted l line hcolors hsource hline
    exact Report.underlines_label hcolors hsource hline

/-- The diagnostic of a source that no phase accepts. -/
def parenthesisDiagnostic : Diagnostic where
  code := .unexpectedToken
  message := "expected stmt, found ')'"
  labels := [{ position := ⟨1, 1, 1⟩, width := 1, message := "expected stmt" }]

/-- A parenthesis behind a tab is marked behind a tab. -/
theorem diagnostics_point_at_source_tab :
    Phase.run 1500 .tree {} "x\n\t)" = some (.error parenthesisDiagnostic) ∧
      ∀ l ∈ parenthesisDiagnostic.labels,
        (∃ before behind line found,
          Marks "x\n\t)" parenthesisDiagnostic l before behind line found) ∧
        ∃ bar pad, Underlines ['\t', ')'] l (Report.quoteLine l ['\t', ')'])
          (({ source := some ⟨"in.hum", "x\n\t)"⟩ } : Report).markLine l ['\t', ')']) bar pad := by
  have hrun : Phase.run 1500 .tree {} "x\n\t)" = some (.error parenthesisDiagnostic) := by
    decide +kernel
  refine ⟨hrun, fun l hl => ⟨?_, ?_⟩⟩
  · obtain ⟨before, behind, line, found, hmarks, -⟩ :=
      diagnostics_point_at_source.1 1500 .tree {} _ _ hrun l hl
    exact ⟨before, behind, line, found, hmarks⟩
  · obtain rfl := List.mem_singleton.mp hl
    obtain ⟨-, bar, pad, -, hunderlines⟩ := diagnostics_point_at_source.2
      { source := some ⟨"in.hum", "x\n\t)"⟩ } ⟨"in.hum", "x\n\t)"⟩
      { position := ⟨1, 1, 1⟩, width := 1, message := "expected stmt" } ['\t', ')'] rfl rfl
      (by decide +kernel)
    exact ⟨bar, pad, hunderlines⟩

end Humus

import Humus.Diagnostic.Report
import Humus.Proofs.Text.Json
import Mathlib.Data.List.Basic

/-!
# Quoted lines and their marks

A label quotes a line of the source behind a bar. The line below has a bar in the same column,
whatever the number of digits before the first one, and its mark stands under the column of the
label.

## Main definitions

* `Barred text bar content`: the first bar of a line, and what stands behind it
* `Underlines quoted l quote mark`: the line `mark` marks the column of `l` under `quote`

## Main results

* `Report.getElem?_padding`: what stands over a mark is copied as blanks and tabs
* `Report.underlines_label`: the mark of a label stands under its column
-/

namespace Humus

/-- The first bar of the line is in the column `bar`, and behind it and a blank stands `content`. -/
def Barred (text : String) (bar : Nat) (content : List Char) : Prop :=
  text.toList.idxOf '|' = bar ∧ text.toList.drop bar = '|' :: ' ' :: content

theorem barred_of_toList {text : String} {bar : Nat} {before content : List Char}
    (h : text.toList = before ++ '|' :: ' ' :: content) (hbefore : '|' ∉ before)
    (hlength : before.length = bar) : Barred text bar content := by
  subst hlength
  rw [Barred, h]
  refine ⟨?_, List.drop_left⟩
  rw [List.idxOf_append_of_notMem hbefore, List.idxOf_cons_self, Nat.add_zero]

/-- The first sign of the mark of a label. -/
def markSign (l : Label) : Char :=
  if l.isPrimary then '^' else '-'

/-- The line `quote` shows the line `quoted` behind a bar. The line `mark` has its bar in the same
column and the mark of the label under the column of the label, behind tabs where the quoted line
has tabs and blanks elsewhere. -/
structure Underlines (quoted : List Char) (l : Label) (quote mark : String) (bar : Nat)
    (pad : List Char) : Prop where
  quote_barred : Barred quote bar quoted
  mark_barred : ∃ rest, Barred mark bar (pad ++ markSign l :: rest)
  length_pad : pad.length = l.position.col
  getElem?_pad : ∀ i < l.position.col,
    pad[i]? = some (if quoted[i]? = some '\t' then '\t' else ' ')

namespace Report

@[simp] theorem length_padding (col : Nat) (line : List Char) : (padding col line).length = col := by
  fun_induction padding col line with
  | case1 => rfl
  | case2 col ih => rw [List.length_cons, ih]
  | case3 col c line ih => rw [List.length_cons, ih]

/-- What stands over a mark is a tab for every tab of the line, and a blank for anything else, also
beyond the end of the line. -/
theorem getElem?_padding {col i : Nat} (hi : i < col) (quoted : List Char) :
    (padding col quoted)[i]? = some (if quoted[i]? = some '\t' then '\t' else ' ') := by
  fun_induction padding col quoted generalizing i with
  | case1 => omega
  | case2 col ih =>
    cases i with
    | zero => rfl
    | succ i => simpa using ih (Nat.lt_of_succ_lt_succ hi)
  | case3 col c quoted ih =>
    cases i with
    | zero => simp
    | succ i => simpa using ih (Nat.lt_of_succ_lt_succ hi)

variable {r : Report} {l : Label} {source : NamedSource} {line : List Char}

theorem exists_toList_mark (l : Label) : ∃ rest, (mark l).toList = markSign l :: rest := by
  obtain ⟨n, hn⟩ := Nat.exists_eq_succ_of_ne_zero (n := max l.width 1) (by omega)
  exact ⟨List.replicate n (markSign l), by rw [mark, hn, String.toList_ofList]; rfl⟩

theorem quotedLine?_eq (hsource : r.source = some source)
    (hline : (splitLines source.text.toList)[l.position.row]? = some line) :
    r.quotedLine? l = some (dropTrailing '\r' line) := by
  simp only [quotedLine?, hsource, hline, Option.map_some]

/-- The digits of the line number hold no bar. -/
theorem barred_quoteLine (l : Label) (quoted : List Char) :
    Barred (quoteLine l quoted) ((toString (l.position.row + 1)).length + 2) quoted := by
  have hdigits : '|' ∉ (toString (l.position.row + 1)).toList := by
    simpa using Text.not_mem_toDigits (by decide) (l.position.row + 1)
  have hquote : (quoteLine l quoted).toList =
      (' ' :: ((toString (l.position.row + 1)).toList ++ [' '])) ++ '|' :: ' ' :: quoted := by
    simp [quoteLine]
  refine barred_of_toList hquote (by simpa using hdigits) ?_
  rw [List.length_cons, List.length_append, String.length_toList]
  rfl

/-- The blanks of the gutter take the place of the line number. -/
theorem barred_markLine (r : Report) (hcolors : r.colors = false) (l : Label)
    (quoted : List Char) : ∃ rest, Barred (r.markLine l quoted)
      ((toString (l.position.row + 1)).length + 2)
      (padding l.position.col quoted ++ markSign l :: rest) := by
  obtain ⟨rest, hrest⟩ := exists_toList_mark l
  have hmark : (r.markLine l quoted).toList =
      (List.replicate ((toString (l.position.row + 1)).length + 1) ' ' ++ [' ']) ++ '|' :: ' ' ::
        (padding l.position.col quoted ++ markSign l :: (rest ++ ' ' :: l.message.toList)) := by
    simp [markLine, gutter, paint, hcolors, hrest]
  exact ⟨_, barred_of_toList hmark (by simp) (by simp)⟩

/-- **The mark of a label stands under its column.** -/
theorem underlines_label (hcolors : r.colors = false) (hsource : r.source = some source)
    (hline : (splitLines source.text.toList)[l.position.row]? = some line) :
    ∃ place bar pad, r.label l = place ++ "\n" ++ quoteLine l (dropTrailing '\r' line) ++ "\n" ++
        r.markLine l (dropTrailing '\r' line) ++ "\n" ∧
      Underlines (dropTrailing '\r' line) l (quoteLine l (dropTrailing '\r' line))
        (r.markLine l (dropTrailing '\r' line)) bar pad := by
  refine ⟨gutter l ++ arrow l ++ " " ++ source.name ++ ":" ++ l.position.text ++ "\n" ++ gutter l
    ++ " |", _, _, ?_, barred_quoteLine l _, barred_markLine r hcolors l _, length_padding _ _,
    fun i hi => getElem?_padding hi _⟩
  simp [label, hsource, quotedLine?_eq hsource hline, String.append_assoc]

end Report

end Humus

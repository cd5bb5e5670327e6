import Humus.Source.Lines
import Mathlib.Data.List.TakeWhile

/-!
# Rows of a text

A place of a text is where the text is divided in two. Its row is the number of line feeds before
it. The line in this row begins behind the last of them and goes on to the next one.

## Main definitions

* `lastLine text`: what stands behind the last line feed

## Main results

* `getElem?_splitLines`: the line of a place
-/

namespace Humus

/-- What stands behind the last line feed of a text. -/
def lastLine (text : List Char) : List Char :=
  (text.reverse.takeWhile (· != '\n')).reverse

theorem lastLine_cons_newline (text : List Char) : lastLine ('\n' :: text) = lastLine text := by
  rw [lastLine, List.reverse_cons, List.takeWhile_append]
  split
  · rename_i hall
    rw [List.takeWhile_cons_of_neg (by decide), List.append_nil, lastLine,
      (List.takeWhile_prefix _).eq_of_length hall]
  · rfl

theorem lastLine_cons_of_mem {text : List Char} (h : '\n' ∈ text) (c : Char) :
    lastLine (c :: text) = lastLine text := by
  rw [lastLine, List.reverse_cons, List.takeWhile_append, if_neg, lastLine]
  intro hall
  have heq := (List.takeWhile_prefix _).eq_of_length hall
  have hmem := List.mem_takeWhile_imp (heq ▸ List.mem_reverse.mpr h)
  exact absurd hmem (by decide)

theorem lastLine_of_not_mem {text : List Char} (h : '\n' ∉ text) : lastLine text = text := by
  rw [lastLine, List.takeWhile_eq_self_iff.mpr, List.reverse_reverse]
  intro c hc
  exact bne_iff_ne.mpr fun he => h (List.mem_reverse.mp (he ▸ hc))

theorem exists_splitLines_eq_cons (text : List Char) :
    ∃ lines, splitLines text = text.takeWhile (· != '\n') :: lines := by
  induction text with
  | nil => exact ⟨[], rfl⟩
  | cons c text ih =>
    obtain ⟨lines, hlines⟩ := ih
    rw [splitLines]
    by_cases hc : c = '\n'
    · subst hc
      exact ⟨_, rfl⟩
    · rw [if_neg hc, hlines, List.takeWhile_cons, if_pos (bne_iff_ne.mpr hc)]
      exact ⟨lines, rfl⟩

/-- **The line of a place** is what stands before the place in its row, and what comes up to the
next line feed. -/
theorem getElem?_splitLines (before behind : List Char) :
    (splitLines (before ++ behind))[before.count '\n']? =
      some (lastLine before ++ behind.takeWhile (· != '\n')) := by
  induction before with
  | nil =>
    obtain ⟨lines, hlines⟩ := exists_splitLines_eq_cons behind
    rw [List.nil_append, hlines]
    rfl
  | cons c before ih =>
    rw [List.cons_append, splitLines]
    by_cases hc : c = '\n'
    · subst hc
      rw [if_pos rfl, List.count_cons_self, List.getElem?_cons_succ, ih, lastLine_cons_newline]
    · rw [if_neg hc, List.count_cons_of_ne hc]
      -- The character is put in front of the first line, which is the line of the place if no line
      -- feed comes before the place.
      obtain ⟨lines, hlines⟩ := exists_splitLines_eq_cons (before ++ behind)
      rw [hlines] at ih ⊢
      by_cases hmem : '\n' ∈ before
      · obtain ⟨n, hn⟩ := Nat.exists_eq_succ_of_ne_zero (Nat.ne_of_gt (List.count_pos_iff.mpr hmem))
        rw [hn] at ih ⊢
        rw [lastLine_cons_of_mem hmem]
        exact ih
      · have hcons : '\n' ∉ c :: before := List.not_mem_cons_of_ne_of_not_mem (Ne.symm hc) hmem
        rw [List.count_eq_zero.mpr hmem] at ih ⊢
        rw [lastLine_of_not_mem hmem] at ih
        rw [lastLine_of_not_mem hcons, List.cons_append, ← Option.some.inj ih]
        rfl

end Humus

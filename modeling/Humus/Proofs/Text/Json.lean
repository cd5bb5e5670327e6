import Humus.Text.Json
import Mathlib.Data.List.TakeWhile

/-!
# JSON text is unambiguous

A document can be told from its text. The text of a document shows where it ends, by its brackets
and quotes or, for a number, by what follows it, and the first character shows its kind.

## Main definitions

* `Json.unescape`: the character that stands at the begin of the rest of a JSON string
* `Json.Follows rest`: the text may follow a document
* `Json.kind`, `Json.kindOf`: the kind of a document, and of its text

## Main results

* `Json.write_inj`: a text begins with at most one document
* `Json.pretty_inj`: documents with the same text are equal
-/

namespace Humus.Text

/-- Only digits are in the digits of a number. -/
theorem not_mem_toDigits {c : Char} (hc : c.isDigit = false) (n : Nat) :
    c ∉ Nat.toDigits 10 n := by
  intro h
  rw [Nat.isDigit_of_mem_toDigits (by omega) le_rfl h] at hc
  cases hc

namespace Json

/-! ## Strings -/

/-- The number that a hexadecimal digit, lower case, stands for. -/
def hexValue (c : Char) : Nat :=
  if c.toNat < 58 then c.toNat - 48 else c.toNat - 87

theorem hexValue_hexDigit : ∀ d < 16, hexValue (hexDigit d) = d := by decide

/-- The character that stands at the begin of the rest of a JSON string, and what follows it. A
quote ends the string. -/
def unescape : List Char → Option (Char × List Char)
  | '"' :: _ => none
  | '\\' :: 'n' :: cs => some ('\n', cs)
  | '\\' :: 'r' :: cs => some ('\r', cs)
  | '\\' :: 't' :: cs => some ('\t', cs)
  | '\\' :: 'b' :: cs => some (Char.ofNat 8, cs)
  | '\\' :: 'f' :: cs => some (Char.ofNat 12, cs)
  | '\\' :: 'u' :: '0' :: '0' :: high :: low :: cs =>
    some (Char.ofNat (16 * hexValue high + hexValue low), cs)
  | '\\' :: c :: cs => some (c, cs)
  | c :: cs => some (c, cs)
  | [] => none

theorem unescape_escape (c : Char) (rest : List Char) :
    unescape (escape c ++ rest) = some (c, rest) := by
  unfold escape
  split_ifs with hquote hback hn hr ht hb hf hcontrol
  · subst hquote; rfl
  · subst hback; rfl
  · subst hn; rfl
  · subst hr; rfl
  · subst ht; rfl
  · subst hb; rfl
  · subst hf; rfl
  · have hhigh := hexValue_hexDigit (c.toNat / 16) (by omega)
    have hlow := hexValue_hexDigit (c.toNat % 16) (by omega)
    have hc : Char.ofNat (16 * (c.toNat / 16) + c.toNat % 16) = c := by
      rw [Nat.div_add_mod, Char.ofNat_toNat]
    show some (Char.ofNat (16 * hexValue _ + hexValue _), rest) = _
    rw [hhigh, hlow, hc]
  · rw [List.singleton_append, unescape.eq_def]
    split <;> simp_all

/-- The characters of a string can be told from how they stand between quotes. -/
theorem escapes_inj {cs ds : List Char} {rest rest' : List Char}
    (h : cs.flatMap escape ++ '"' :: rest = ds.flatMap escape ++ '"' :: rest') :
    cs = ds ∧ rest = rest' := by
  induction cs generalizing ds with
  | nil =>
    cases ds with
    | nil => exact ⟨rfl, (List.cons.inj h).2⟩
    | cons d ds =>
      have hread := unescape_escape d (ds.flatMap escape ++ '"' :: rest')
      rw [← List.append_assoc, ← List.flatMap_cons, ← h] at hread
      cases hread
  | cons c cs ih =>
    have hread := unescape_escape c (cs.flatMap escape ++ '"' :: rest)
    rw [← List.append_assoc, ← List.flatMap_cons, h] at hread
    cases ds with
    | nil => cases hread
    | cons d ds =>
      rw [List.flatMap_cons, List.append_assoc, unescape_escape] at hread
      obtain ⟨rfl, htail⟩ := Prod.mk.inj (Option.some.inj hread)
      obtain ⟨rfl, hrest⟩ := ih htail.symm
      exact ⟨rfl, hrest⟩

theorem writeString_inj {s t : String} {rest rest' : List Char}
    (h : writeString s rest = writeString t rest') : s = t ∧ rest = rest' := by
  obtain ⟨hst, hrest⟩ := escapes_inj (List.cons.inj h).2
  exact ⟨String.toList_inj.mp hst, hrest⟩

/-! ## Numbers -/

/-- The text may follow a document: it is empty, or a comma or a new line comes first. -/
def Follows (rest : List Char) : Prop :=
  ∀ c ∈ rest.head?, c = ',' ∨ c = '\n'

theorem follows_nil : Follows [] := by simp [Follows]

theorem follows_newLine (depth : Nat) (rest : List Char) : Follows (newLine depth rest) := by
  simp [Follows, newLine]

/-- The characters in the text of a number. -/
def isNumeral (c : Char) : Bool :=
  c.isDigit || c == '-'

theorem toList_ofNat (m : Nat) : (toString (Int.ofNat m)).toList = Nat.toDigits 10 m :=
  Nat.toList_repr

theorem toList_negSucc (m : Nat) :
    (toString (Int.negSucc m)).toList = '-' :: Nat.toDigits 10 (m + 1) := by
  change ("-" ++ (m + 1).repr).toList = _
  rw [String.toList_append, Nat.toList_repr]
  rfl

theorem isDigit_of_mem_toDigits {m : Nat} {c : Char} (h : c ∈ Nat.toDigits 10 m) : c.isDigit :=
  Nat.isDigit_of_mem_toDigits (by omega) le_rfl h

theorem isNumeral_toString (n : Int) : ∀ c ∈ (toString n).toList, isNumeral c := by
  intro c hc
  cases n with
  | ofNat m =>
    rw [toList_ofNat] at hc
    simp [isNumeral, isDigit_of_mem_toDigits hc]
  | negSucc m =>
    rw [toList_negSucc] at hc
    rcases List.mem_cons.mp hc with rfl | hc
    · rfl
    · simp [isNumeral, isDigit_of_mem_toDigits hc]

theorem toString_ne_nil (n : Int) : (toString n).toList ≠ [] := by
  cases n with
  | ofNat m => rw [toList_ofNat]; exact Nat.toDigits_ne_nil
  | negSucc m => rw [toList_negSucc]; exact List.cons_ne_nil _ _

theorem toDigits_inj {m n : Nat} (h : Nat.toDigits 10 m = Nat.toDigits 10 n) : m = n := by
  rw [← Nat.ofDigitChars_ten_toDigits (n := m), h, Nat.ofDigitChars_ten_toDigits]

/-- The minus sign is no digit, so that it shows the sign of a number. -/
theorem toDigits_ne_minus {m n : Nat} : Nat.toDigits 10 m ≠ '-' :: Nat.toDigits 10 n := by
  intro h
  exact not_mem_toDigits (by decide) m (h ▸ List.mem_cons_self)

theorem toString_inj {m n : Int} (h : (toString m).toList = (toString n).toList) : m = n := by
  cases m <;> cases n <;> simp only [toList_ofNat, toList_negSucc] at h
  · rw [toDigits_inj h]
  · exact absurd h toDigits_ne_minus
  · exact absurd h.symm toDigits_ne_minus
  · rw [Nat.succ.inj (toDigits_inj (List.cons.inj h).2)]

theorem takeWhile_isNumeral (n : Int) {rest : List Char} (h : Follows rest) :
    ((toString n).toList ++ rest).takeWhile isNumeral = (toString n).toList := by
  rw [List.takeWhile_append_of_pos (isNumeral_toString n)]
  cases rest with
  | nil => simp
  | cons c cs =>
    have hc : isNumeral c = false := by
      rcases h c rfl with rfl | rfl <;> rfl
    simp [hc]

/-- A number can be told from its text and what follows it. -/
theorem toString_append_inj {m n : Int} {rest rest' : List Char} (hrest : Follows rest)
    (hrest' : Follows rest') (h : (toString m).toList ++ rest = (toString n).toList ++ rest') :
    m = n ∧ rest = rest' := by
  have htext : (toString m).toList = (toString n).toList := by
    rw [← takeWhile_isNumeral m hrest, h, takeWhile_isNumeral n hrest']
  refine ⟨toString_inj htext, ?_⟩
  rw [htext] at h
  exact List.append_cancel_left h

/-! ## Documents -/

/-- The kinds of documents. -/
inductive Kind where
  | null
  | bool
  | int
  | string
  | array
  | object
  deriving DecidableEq

/-- The kind of a document. -/
def kind : Json → Kind
  | .null => .null
  | .bool _ => .bool
  | .int _ => .int
  | .string _ => .string
  | .array _ => .array
  | .object _ => .object

/-- The kind of a document whose text begins with `c`. -/
def kindOf (c : Char) : Kind :=
  if c = 'n' then .null
  else if c = 't' ∨ c = 'f' then .bool
  else if c = '"' then .string
  else if c = '[' then .array
  else if c = '\x7b' then .object
  else .int

theorem kindOf_of_isNumeral {c : Char} (h : isNumeral c) : kindOf c = .int := by
  unfold kindOf
  split_ifs with hn ht hq ha ho
  · subst hn; cases h
  · rcases ht with rfl | rfl <;> cases h
  · subst hq; cases h
  · subst ha; cases h
  · subst ho; cases h
  · rfl

/-- The first character of a text shows the kind of its document. -/
theorem exists_write_eq_cons (a : Json) (depth : Nat) (rest : List Char) :
    ∃ c cs, a.write depth rest = c :: cs ∧ kindOf c = a.kind := by
  match a with
  | .null => exact ⟨_, _, rfl, rfl⟩
  | .bool true | .bool false => exact ⟨_, _, rfl, rfl⟩
  | .int n =>
    obtain ⟨c, cs, hcs⟩ := List.exists_cons_of_ne_nil (toString_ne_nil n)
    have hc : isNumeral c := isNumeral_toString n c (hcs ▸ List.mem_cons_self)
    refine ⟨c, cs ++ rest, ?_, kindOf_of_isNumeral hc⟩
    rw [write, hcs, List.cons_append]
  | .string s => exact ⟨_, _, rfl, rfl⟩
  | .array [] | .array (_ :: _) => exact ⟨_, _, rfl, rfl⟩
  | .object [] | .object (_ :: _) => exact ⟨_, _, rfl, rfl⟩

theorem kind_eq_of_write_eq {a b : Json} {depth : Nat} {rest rest' : List Char}
    (h : a.write depth rest = b.write depth rest') : a.kind = b.kind := by
  obtain ⟨c, cs, hcs, hc⟩ := exists_write_eq_cons a depth rest
  obtain ⟨d, ds, hds, hd⟩ := exists_write_eq_cons b depth rest'
  rw [hcs, hds] at h
  rw [← hc, ← hd, (List.cons.inj h).1]

theorem newLine_inj {depth : Nat} {rest rest' : List Char}
    (h : newLine depth rest = newLine depth rest') : rest = rest' :=
  List.append_cancel_left (List.cons.inj h).2

theorem follows_writeItems (as : List Json) (depth depth' : Nat) (rest : List Char) :
    Follows (writeItems as depth (newLine depth' rest)) := by
  cases as with
  | nil => exact follows_newLine depth' rest
  | cons a as => simp [writeItems, Follows]

theorem follows_writeFields (fields : List (String × Json)) (depth depth' : Nat)
    (rest : List Char) : Follows (writeFields fields depth (newLine depth' rest)) := by
  cases fields with
  | nil => exact follows_newLine depth' rest
  | cons field fields => simp [writeFields, Follows]

mutual

/-- **A text begins with at most one document.** -/
theorem write_inj : (a b : Json) → ∀ {depth : Nat} {rest rest' : List Char}, Follows rest →
    Follows rest' → a.write depth rest = b.write depth rest' → a = b ∧ rest = rest'
  | .null, b, _, _, _, _, _, h => by
    cases b with
    | null => exact ⟨rfl, List.append_cancel_left h⟩
    | _ => cases kind_eq_of_write_eq h
  | .bool x, b, _, _, _, _, _, h => by
    cases b with
    | bool y => cases x <;> cases y <;> simp_all [write]
    | _ => cases kind_eq_of_write_eq h
  | .int m, b, _, _, _, hrest, hrest', h => by
    cases b with
    | int n =>
      obtain ⟨rfl, htail⟩ := toString_append_inj hrest hrest' h
      exact ⟨rfl, htail⟩
    | _ => cases kind_eq_of_write_eq h
  | .string s, b, _, _, _, _, _, h => by
    cases b with
    | string t =>
      obtain ⟨rfl, htail⟩ := writeString_inj h
      exact ⟨rfl, htail⟩
    | _ => cases kind_eq_of_write_eq h
  | .array as, b, _, _, _, _, _, h => by
    cases b with
    | array bs =>
      -- an empty array is written without a new line, so it is told from the others
      cases as with
      | nil =>
        cases bs with
        | nil => exact ⟨rfl, by simpa [write] using h⟩
        | cons b bs => simp [write, newLine] at h
      | cons a as =>
        cases bs with
        | nil => simp [write, newLine] at h
        | cons b bs =>
          rw [write, write] at h
          obtain ⟨rfl, hitems⟩ := write_inj a b (follows_writeItems _ _ _ _)
            (follows_writeItems _ _ _ _) (newLine_inj (List.cons.inj h).2)
          obtain ⟨rfl, hend⟩ := writeItems_inj as bs hitems
          exact ⟨rfl, (List.cons.inj hend).2⟩
    | _ => cases kind_eq_of_write_eq h
  | .object fields, b, _, _, _, _, _, h => by
    cases b with
    | object fields' =>
      cases fields with
      | nil =>
        cases fields' with
        | nil => exact ⟨rfl, by simpa [write] using h⟩
        | cons field fields' => simp [write, newLine] at h
      | cons field fields =>
        cases fields' with
        | nil => simp [write, newLine] at h
        | cons field' fields' =>
          rw [write, write] at h
          obtain ⟨hname, hvalue⟩ := writeString_inj (newLine_inj (List.cons.inj h).2)
          obtain ⟨ha, hfields⟩ := write_inj field.2 field'.2 (follows_writeFields _ _ _ _)
            (follows_writeFields _ _ _ _) (List.cons.inj (List.cons.inj hvalue).2).2
          obtain ⟨rfl, hend⟩ := writeFields_inj fields fields' hfields
          exact ⟨by rw [Prod.ext hname ha], (List.cons.inj hend).2⟩
    | _ => cases kind_eq_of_write_eq h

/-- The items of an array, up to its end. -/
theorem writeItems_inj : (as bs : List Json) → ∀ {depth depth' : Nat} {rest rest' : List Char},
    writeItems as depth (newLine depth' rest) = writeItems bs depth (newLine depth' rest') →
    as = bs ∧ rest = rest'
  | [], [], _, _, _, _, h => ⟨rfl, newLine_inj h⟩
  | [], _ :: _, _, _, _, _, h | _ :: _, [], _, _, _, _, h => by simp [writeItems, newLine] at h
  | a :: as, b :: bs, _, _, _, _, h => by
    rw [writeItems, writeItems] at h
    obtain ⟨rfl, hitems⟩ := write_inj a b (follows_writeItems _ _ _ _)
      (follows_writeItems _ _ _ _) (newLine_inj (List.cons.inj h).2)
    obtain ⟨rfl, hrest⟩ := writeItems_inj as bs hitems
    exact ⟨rfl, hrest⟩

/-- The fields of an object, up to its end. -/
theorem writeFields_inj : (fields fields' : List (String × Json)) →
    ∀ {depth depth' : Nat} {rest rest' : List Char},
    writeFields fields depth (newLine depth' rest) =
      writeFields fields' depth (newLine depth' rest') →
    fields = fields' ∧ rest = rest'
  | [], [], _, _, _, _, h => ⟨rfl, newLine_inj h⟩
  | [], _ :: _, _, _, _, _, h | _ :: _, [], _, _, _, _, h => by simp [writeFields, newLine] at h
  | (name, a) :: fields, (name', a') :: fields', _, _, _, _, h => by
    rw [writeFields, writeFields] at h
    obtain ⟨rfl, hvalue⟩ := writeString_inj (newLine_inj (List.cons.inj h).2)
    obtain ⟨rfl, hfields⟩ := write_inj a a' (follows_writeFields _ _ _ _)
      (follows_writeFields _ _ _ _) (List.cons.inj (List.cons.inj hvalue).2).2
    obtain ⟨rfl, hrest⟩ := writeFields_inj fields fields' hfields
    exact ⟨rfl, hrest⟩

end

/-- **Documents with the same text are equal.** -/
theorem pretty_inj {a b : Json} : a.pretty = b.pretty ↔ a = b := by
  refine ⟨fun h => ?_, congrArg _⟩
  have htext : a.write 0 [] = b.write 0 [] := String.ofList_injective h
  exact (write_inj a b follows_nil follows_nil htext).1

end Json

end Humus.Text

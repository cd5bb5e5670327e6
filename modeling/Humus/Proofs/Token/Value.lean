import Humus.Token.Number
import Mathlib.Data.Nat.Digits.Defs
import Mathlib.Tactic.Ring

/-!
# The value of a number literal

A number literal keeps its sign, its radix and its digits. The digits denote a number by their
places, the last one counting for itself. The literal has that number for its value, with its sign,
if the digits are digits of the radix and the number fits a word without the sign. The least word is
the one word that does not, so that no literal with a sign has it for its value.

## Main definitions

* `Number.digitValue c`: the value of a digit, of either case
* `Number.denoted radix digits`: the number that digits denote
* `Number.Valid radix digits`: there are digits, and they are digits of the radix

## Main results

* `Number.magnitude?_eq_some_iff`: what the reader of digits comes to
* `Number.value_of_literal`: which literals have which value
-/

namespace Humus.Number

/-! ## Digits -/

/-- The digits of all radixes, each at the place that is its value. -/
def numerals : List Char :=
  "0123456789abcdefghijklmnopqrstuvwxyz".toList

/-- The value of a digit, where letters of either case continue the digits. What is no digit has a
value that is too large for every radix. -/
def digitValue (c : Char) : Nat :=
  numerals.idxOf c.toLower

/-- The number that digits denote in a radix. -/
def denoted (radix : Nat) (digits : List Char) : Nat :=
  Nat.ofDigits radix (digits.reverse.map digitValue)

/-- There are digits, and they are digits of the radix. -/
structure Valid (radix : Nat) (digits : List Char) : Prop where
  two_le : 2 ≤ radix
  le : radix ≤ 36
  ne_nil : digits ≠ []
  lt : ∀ c ∈ digits, digitValue c < radix

theorem valid_iff {radix : Nat} {digits : List Char} :
    Valid radix digits ↔ 2 ≤ radix ∧ radix ≤ 36 ∧ digits ≠ [] ∧
      digits.all (digitValue · < radix) = true := by
  simp only [List.all_eq_true, decide_eq_true_eq]
  constructor
  · intro h
    exact ⟨h.two_le, h.le, h.ne_nil, h.lt⟩
  · rintro ⟨two_le, le, ne_nil, lt⟩
    exact ⟨two_le, le, ne_nil, lt⟩

instance (radix : Nat) (digits : List Char) : Decidable (Valid radix digits) :=
  decidable_of_iff _ valid_iff.symm

/-- A number with a sign in front of it. -/
def signed (sign : Option Char) (n : Nat) : Int :=
  if sign = some '-' then -n else n

/-- The least word. -/
def leastWord : Int :=
  -9223372036854775808

variable {radix acc m : Nat} {c : Char} {cs : List Char}

/-- A character beyond the first 128 is no digit. -/
theorem digitValue_of_le (hc : 128 ≤ c.toNat) : digitValue c = 36 := by
  have hlower : c.toLower = c := by
    apply dif_neg
    rintro ⟨-, hle⟩
    have hle : c.toNat ≤ 90 := hle
    omega
  have hsmall : numerals.all (·.toNat < 128) = true := by decide
  rw [digitValue, hlower, List.idxOf_eq_length]
  · rfl
  · intro hmem
    have hlt := of_decide_eq_true (List.all_eq_true.mp hsmall c hmem)
    omega

/-- The largest radix allows every digit. -/
theorem digit?_thirtySix (c : Char) :
    digit? 36 c = if digitValue c < 36 then some (digitValue c) else none := by
  by_cases hc : c.toNat < 128
  · have hall : ∀ n < 128, digit? 36 (Char.ofNat n) =
        if digitValue (Char.ofNat n) < 36 then some (digitValue (Char.ofNat n)) else none := by
      decide +kernel
    simpa using hall c.toNat hc
  · have hle : ∀ d : Char, d.toNat < 128 → ¬ c ≤ d := by
      intro d hd hcd
      have hcd : c.toNat ≤ d.toNat := hcd
      omega
    rw [digitValue_of_le (by omega)]
    simp [digit?, hle]

/-- A digit is read as its value, if the radix allows it. -/
theorem digit?_eq (hradix : radix ≤ 36) (c : Char) :
    digit? radix c = if digitValue c < radix then some (digitValue c) else none := by
  -- a smaller radix takes fewer of the digits that the largest radix takes
  have hfilter : digit? radix c = (digit? 36 c).filter (· < radix) := by
    rw [digit?, digit?, Option.filter_filter]
    congr 1
    funext d
    by_cases hd : d < radix
    · simp [hd, Nat.lt_of_lt_of_le hd hradix]
    · simp [hd]
  rw [hfilter, digit?_thirtySix]
  by_cases hd : digitValue c < 36
  · simp [hd, Option.filter_some]
  · rw [if_neg hd, if_neg (by omega)]
    rfl

/-- The first digit counts for the most. -/
theorem denoted_cons :
    denoted radix (c :: cs) = digitValue c * radix ^ cs.length + denoted radix cs := by
  simp only [denoted, List.reverse_cons, List.map_append, Nat.ofDigits_append]
  simp
  ring

theorem magnitudeFrom?_eq_some_iff (hradix : radix ≤ 36) :
    magnitudeFrom? radix acc cs = some m ↔
      (∀ c ∈ cs, digitValue c < radix) ∧ m = acc * radix ^ cs.length + denoted radix cs := by
  induction cs generalizing acc with
  | nil => simp [magnitudeFrom?, denoted, eq_comm]
  | cons c cs ih =>
    rw [magnitudeFrom?, digit?_eq hradix]
    by_cases hc : digitValue c < radix
    · have hvalue : (acc * radix + digitValue c) * radix ^ cs.length + denoted radix cs =
          acc * radix ^ (c :: cs).length + denoted radix (c :: cs) := by
        rw [denoted_cons, List.length_cons]
        ring
      rw [if_pos hc, Option.bind_some, ih, hvalue, List.forall_mem_cons, and_iff_right hc]
    · simp [hc]

/-- **Digits are read as the number that they denote**, if there are any and they are digits of the
radix. -/
theorem magnitude?_eq_some_iff (hradix : radix ≤ 36) :
    magnitude? radix cs = some m ↔
      cs ≠ [] ∧ (∀ c ∈ cs, digitValue c < radix) ∧ m = denoted radix cs := by
  cases cs with
  | nil => simp [magnitude?]
  | cons c cs =>
    have hread : magnitude? radix (c :: cs) = magnitudeFrom? radix 0 (c :: cs) := rfl
    simp [hread, magnitudeFrom?_eq_some_iff hradix]

/-! ## Words -/

theorem fitsWord_iff {n : Int} :
    fitsWord n = true ↔ -9223372036854775808 ≤ n ∧ n ≤ 9223372036854775807 := by
  simp [fitsWord]

/-- A number fits a word without its sign if it fits one with its sign, and that is not the least
one. -/
theorem fitsWord_signed_iff (sign : Option Char) (n : Nat) :
    fitsWord (signed sign n) = true ∧ signed sign n ≠ leastWord ↔ fitsWord n = true := by
  simp only [fitsWord_iff, leastWord]
  unfold signed
  split <;> omega

/-- Letters and digits are read without a sign. -/
theorem word?_eq (hcs : ∀ c ∈ cs, c.isAlphanum = true) :
    word? radix cs = ((magnitude? radix cs).map Nat.cast).filter fitsWord := by
  have hminus : ∀ ds, cs ≠ '-' :: ds := by
    rintro ds rfl
    exact absurd (hcs '-' List.mem_cons_self) (by decide)
  have hplus : ∀ ds, cs ≠ '+' :: ds := by
    rintro ds rfl
    exact absurd (hcs '+' List.mem_cons_self) (by decide)
  unfold word?
  split
  · exact absurd rfl (hminus _)
  · exact absurd rfl (hplus _)
  · cases magnitude? radix cs <;> rfl

/-- What is read without a sign is not negative, so that its negative is a word as well. -/
theorem negate_of_word? (hcs : ∀ c ∈ cs, c.isAlphanum = true) {w : Int}
    (hw : word? radix cs = some w) : fitsWord (-w) = true ∧ negate w = -w := by
  rw [word?_eq hcs, Option.filter_eq_some_iff, Option.map_eq_some_iff] at hw
  obtain ⟨⟨m, -, rfl⟩, hfits⟩ := hw
  have hnegative : fitsWord (-(m : Int)) = true := by
    rw [fitsWord_iff] at hfits ⊢
    omega
  exact ⟨hnegative, if_pos hnegative⟩

theorem word?_eq_some_iff (hradix : radix ≤ 36) (hcs : ∀ c ∈ cs, c.isAlphanum = true) {w : Int} :
    word? radix cs = some w ↔
      cs ≠ [] ∧ (∀ c ∈ cs, digitValue c < radix) ∧ w = denoted radix cs ∧ fitsWord w = true := by
  rw [word?_eq hcs, Option.filter_eq_some_iff, Option.map_eq_some_iff]
  constructor
  · rintro ⟨⟨m, hm, rfl⟩, hfits⟩
    obtain ⟨hne, hlt, rfl⟩ := (magnitude?_eq_some_iff hradix).mp hm
    exact ⟨hne, hlt, rfl, hfits⟩
  · rintro ⟨hne, hlt, rfl, hfits⟩
    exact ⟨⟨_, (magnitude?_eq_some_iff hradix).mpr ⟨hne, hlt, rfl⟩, rfl⟩, hfits⟩

variable {sign : Option Char} {digits : String}

/-- **The value of a literal** that is made of letters and digits. -/
theorem value?_eq_some_iff (hdigits : ∀ c ∈ digits.toList, c.isAlphanum = true) {v : Int} :
    (Number.mk sign radix digits).value? = some v ↔
      Valid radix digits.toList ∧ v = signed sign (denoted radix digits.toList) ∧
        fitsWord v = true ∧ v ≠ leastWord := by
  by_cases hradix : 2 ≤ radix ∧ radix ≤ 36
  · have hvalue : (Number.mk sign radix digits).value? = (word? radix digits.toList).map
        fun w => if sign = some '-' then negate w else w := if_pos hradix
    rw [hvalue, Option.map_eq_some_iff]
    constructor
    · rintro ⟨w, hw, rfl⟩
      obtain ⟨-, hnegate⟩ := negate_of_word? hdigits hw
      obtain ⟨hne, hlt, rfl, hfits⟩ := (word?_eq_some_iff hradix.2 hdigits).mp hw
      rw [hnegate]
      exact ⟨⟨hradix.1, hradix.2, hne, hlt⟩, rfl, (fitsWord_signed_iff sign _).mpr hfits⟩
    · rintro ⟨hvalid, rfl, hfits⟩
      have hw := (word?_eq_some_iff hradix.2 hdigits).mpr
        ⟨hvalid.ne_nil, hvalid.lt, rfl, (fitsWord_signed_iff sign _).mp hfits⟩
      obtain ⟨-, hnegate⟩ := negate_of_word? hdigits hw
      exact ⟨_, hw, by rw [hnegate]; rfl⟩
  · have hvalue : (Number.mk sign radix digits).value? = none := if_neg hradix
    rw [hvalue]
    constructor
    · intro h
      cases h
    · rintro ⟨hvalid, -⟩
      exact absurd ⟨hvalid.two_le, hvalid.le⟩ hradix

/-! ## Decimal literals -/

/-- The digits that a number is written with denote it. -/
theorem denoted_toDigits (h : 1 < radix) (h' : radix ≤ 16) (n : Nat) :
    Valid radix (Nat.toDigits radix n) ∧ denoted radix (Nat.toDigits radix n) = n := by
  have hdigit : ∀ d < 16, digitValue (Nat.digitChar d) = d := by decide
  suffices (∀ c ∈ Nat.toDigits radix n, digitValue c < radix) ∧
      denoted radix (Nat.toDigits radix n) = n from
    ⟨⟨by omega, by omega, Nat.toDigits_ne_nil, this.1⟩, this.2⟩
  -- every digit but the last one belongs to the quotient by the radix
  induction n using Nat.strongRecOn with
  | ind n ih =>
    by_cases hn : n < radix
    · rw [Nat.toDigits_of_lt_base hn]
      simp [denoted, hdigit n (by omega), hn]
    · have hlt : n % radix < radix := Nat.mod_lt n (by omega)
      obtain ⟨hall, hvalue⟩ := ih (n / radix) (Nat.div_lt_self (by omega) h)
      rw [Nat.toDigits_of_base_le h (by omega)]
      constructor
      · intro c hc
        rcases List.mem_append.mp hc with hc | hc
        · exact hall c hc
        · rw [List.mem_singleton.mp hc, hdigit _ (by omega)]
          exact hlt
      · have hlast : denoted radix (Nat.toDigits radix (n / radix) ++ [Nat.digitChar (n % radix)]) =
            digitValue (Nat.digitChar (n % radix)) +
              radix * denoted radix (Nat.toDigits radix (n / radix)) := by
          simp [denoted, Nat.ofDigits_cons]
        rw [hlast, hvalue, hdigit _ (by omega), Nat.mod_add_div]

/-- A word that is not the least one is the value of its literal. -/
theorem value?_decimal {v : Int} (hv : fitsWord v = true) (hleast : v ≠ leastWord) :
    (decimal v).value? = some v := by
  obtain ⟨hvalid, hvalue⟩ := denoted_toDigits (show 1 < 10 by omega) (by omega) v.natAbs
  have hdigits : (toString v.natAbs).toList = Nat.toDigits 10 v.natAbs := Nat.toList_repr
  have halphanum : ∀ c ∈ (toString v.natAbs).toList, c.isAlphanum = true := by
    rw [hdigits]
    intro c hc
    rw [Char.isAlphanum, Nat.isDigit_of_mem_toDigits (by omega) le_rfl hc, Bool.or_true]
  rw [decimal, value?_eq_some_iff halphanum, hdigits, hvalue]
  refine ⟨hvalid, ?_, hv, hleast⟩
  -- the sign and the absolute value make up the word
  unfold signed
  by_cases hneg : v < 0
  · rw [if_pos hneg, if_pos rfl]
    omega
  · rw [if_neg hneg, if_neg (by simp)]
    omega

/-- **The value of a literal.** Let the digits be letters and digits, and let there be a sign in
front of them or none. The literal has the value `v` if and only if the radix is one of 2 to 36,
there are digits, all of them are digits of the radix, and `v` is the number that they denote, with
the sign, and a word other than the least. No negation wraps around on the way to the value. In
particular each word but the least is the value of the literal that is made for it. -/
theorem value_of_literal (sign : Option Char) (radix : Nat) (digits : String) :
    ((∀ c ∈ digits.toList, c.isAlphanum = true) →
      (∀ v, (Number.mk sign radix digits).value? = some v ↔
        Valid radix digits.toList ∧ v = signed sign (denoted radix digits.toList) ∧
          fitsWord v = true ∧ v ≠ leastWord) ∧
      ∀ w, word? radix digits.toList = some w → fitsWord (-w) = true ∧ negate w = -w) ∧
    ∀ v, fitsWord v = true → v ≠ leastWord → (decimal v).value? = some v := by
  constructor
  · intro hdigits
    exact ⟨fun v => value?_eq_some_iff hdigits, fun w hw => negate_of_word? hdigits hw⟩
  · intro v hv hleast
    exact value?_decimal hv hleast

/-- A literal of another radix, and the largest and the least word that are values. -/
theorem value_of_literal_words :
    (Number.mk (some '-') 16 "2a").value? = some (-42) ∧
      (decimal 9223372036854775807).value? = some 9223372036854775807 ∧
      (decimal (-9223372036854775807)).value? = some (-9223372036854775807) := by
  have hdigits : ∀ c ∈ "2a".toList, c.isAlphanum = true := List.all_eq_true.mp (by decide)
  have hvalid : Valid 16 "2a".toList := by decide
  obtain ⟨hliteral, hdecimal⟩ := value_of_literal (some '-') 16 "2a"
  refine ⟨((hliteral hdigits).1 (-42)).mpr ?_, ?_, ?_⟩
  · exact ⟨hvalid, by decide, by decide, by decide⟩
  · exact hdecimal _ (by decide) (by decide)
  · exact hdecimal _ (by decide) (by decide)

/-- The least word is a word, and it is the number that its literal denotes. The literal has no
value, since its digits do not fit a word without the sign. -/
theorem least_word_without_value :
    fitsWord leastWord = true ∧ decimal leastWord = ⟨some '-', 10, "9223372036854775808"⟩ ∧
      signed (some '-') (denoted 10 "9223372036854775808".toList) = leastWord ∧
      (decimal leastWord).value? = none := by
  decide +kernel

end Humus.Number

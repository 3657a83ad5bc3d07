import Mathlib
import BlockSteps.Decimal.Format
import BlockSteps.Proofs.Decimal.ReadBack
import BlockSteps.Proofs.Decimal.Scientific

/-!
# How numbers are spelled

A number in a document is a sign, digits, perhaps a point with digits behind it, and perhaps an
exponent: a `Spelling`.  Every whole number has one, and so has every finite double, whichever way
the document format lays its digits out; and the literal that it spells lies in the interval of the
double.

**Main statement.**  `exists_spelling_document`: the text of a finite double is a proper spelling,
with a point or an exponent, of a literal that is read as this double.
-/

namespace BlockSteps.Decimal

/-! ## Digits -/

/-- The digits of a number are read as the number. -/
theorem digitsValue_natChars (n : ℕ) : digitsValue (natChars n) = n := Nat.ofDigitChars_ten_toDigits

theorem digitsValue_append (xs ys : List Char) :
    digitsValue (xs ++ ys) = digitsValue xs * 10 ^ ys.length + digitsValue ys := by
  induction ys using List.reverseRecOn with
  | nil => simp [digitsValue]
  | append_singleton ys c ih =>
    have hstep : ∀ l : List Char, digitsValue (l ++ [c]) =
        10 * digitsValue l + (c.toNat - '0'.toNat) := fun l => by simp [digitsValue]
    rw [← List.append_assoc, hstep, hstep, ih, List.length_append, List.length_singleton, pow_succ]
    ring

theorem digitsValue_zeros (k : ℕ) : digitsValue (List.replicate k '0') = 0 := by
  induction k with
  | zero => rfl
  | succ k ih =>
    rw [List.replicate_succ', digitsValue_append, ih]
    rfl

/-- The first digit of a positive number is not zero. -/
theorem exists_natChars_eq_cons {n : ℕ} (hn : 0 < n) :
    ∃ c rest, natChars n = c :: rest ∧ c ≠ '0' := by
  induction n using Nat.strong_induction_on with
  | _ n ih =>
    by_cases hsmall : n < 10
    · refine ⟨Nat.digitChar n, [], Nat.toDigits_of_lt_base hsmall, ?_⟩
      interval_cases n <;> decide
    · obtain ⟨c, rest, hrest, hc⟩ := ih (n / 10) (by omega) (by omega)
      refine ⟨c, rest ++ [Nat.digitChar (n % 10)], ?_, hc⟩
      have hstep : natChars n = natChars (n / 10) ++ [Nat.digitChar (n % 10)] :=
        Nat.toDigits_of_base_le (by decide) (by omega)
      rw [hstep, hrest]
      rfl

/-- Digits begin with no sign. -/
theorem signOf_of_isDigit {c : Char} (hc : c.isDigit = true) (cs : List Char) :
    signOf (c :: cs) = (false, c :: cs) := by
  unfold signOf
  split
  · rename_i h
    cases h
    exact absurd hc (by decide)
  · rename_i h
    cases h
    exact absurd hc (by decide)
  · rfl

/-! ## Spellings -/

namespace Spelling

/-- The characters of the exponent. -/
def exponentTail (s : Spelling) : List Char :=
  match s.exponent with
  | none => []
  | some e => 'e' :: intChars e

/-- The characters of the point and what follows it. -/
def fractionTail (s : Spelling) : List Char :=
  if s.fraction.isEmpty then s.exponentTail else '.' :: (s.fraction ++ s.exponentTail)

/-- The characters of the number. -/
def chars (s : Spelling) : List Char :=
  if s.negative then '-' :: (s.whole ++ s.fractionTail) else s.whole ++ s.fractionTail

/-- The digits are digits, and no zero stands before others. -/
structure Proper (s : Spelling) : Prop where
  /-- Before the point stand digits. -/
  whole : ∀ c ∈ s.whole, c.isDigit = true
  /-- They are one zero, or do not begin with a zero. -/
  leading : s.whole = ['0'] ∨ ∃ c rest, s.whole = c :: rest ∧ c ≠ '0'
  /-- Behind the point stand digits. -/
  fraction : ∀ c ∈ s.fraction, c.isDigit = true

/-- The number `± c * 10 ^ k` is spelled, with a point or an exponent.  Zeros may be written behind
its digits. -/
structure Spells (s : Spelling) (n : Bool) (c : ℕ) (k : ℤ) : Prop where
  /-- The spelling is proper. -/
  proper : s.Proper
  /-- The sign is that of the number. -/
  negative : s.negative = n
  /-- There is a point or an exponent. -/
  real : s.isWhole = false
  /-- The digits are those of the number and some zeros, which the exponent takes back. -/
  digits : ∃ j : ℕ, digitsValue (s.whole ++ s.fraction) = c * 10 ^ j ∧
    s.exponent.getD 0 - s.fraction.length = k - j

/-- The literal has the value of the number. -/
theorem Spells.value_eq {s : Spelling} {n : Bool} {c : ℕ} {k : ℤ} (h : s.Spells n c k) :
    (s.literal.coefficient : ℚ) * 10 ^ s.literal.exponent = c * 10 ^ k := by
  obtain ⟨j, hdigits, hexponent⟩ := h.digits
  unfold literal
  dsimp only
  rw [hdigits, hexponent, zpow_sub₀ (by norm_num), zpow_natCast]
  push_cast
  field_simp

end Spelling

/-! ## The spelling of a double -/

section

variable {c : ℕ} {k : ℤ} {n : Bool}

/-- The digits of a number that is not zero. -/
structure DigitsOf (digits : List Char) (c : ℕ) : Prop where
  /-- They are digits. -/
  isDigit : ∀ d ∈ digits, d.isDigit = true
  /-- The first is not a zero. -/
  first : ∃ first rest, digits = first :: rest ∧ first ≠ '0'
  /-- Their value is the number. -/
  value : digitsValue digits = c

theorem digitsOf_natChars (hc : 0 < c) : DigitsOf (natChars c) c :=
  ⟨fun _ => isDigit_natChars, exists_natChars_eq_cons hc, digitsValue_natChars c⟩

theorem isDigit_zeros {i : ℕ} : ∀ d ∈ List.replicate i '0', d.isDigit = true := fun _ hd =>
  List.eq_of_mem_replicate hd ▸ by decide

/-- All digits stand behind the point, behind some zeros. -/
theorem DigitsOf.spells_behind {digits : List Char} (h : DigitsOf digits c) {i : ℕ}
    (hi : k + digits.length = -i) :
    Spelling.Spells ⟨n, ['0'], List.replicate i '0' ++ digits, none⟩ n c k := by
  have hzero : ∀ d ∈ ['0'], d.isDigit = true := List.forall_mem_singleton.mpr rfl
  have hsingle : digitsValue ['0'] = 0 := rfl
  refine ⟨⟨hzero, .inl rfl, fun d hd => ?_⟩, rfl, ?_, 0, ?_, ?_⟩
  · exact (List.mem_append.mp hd).elim (isDigit_zeros d) (h.isDigit d)
  · obtain ⟨first, rest, hfirst, -⟩ := h.first
    rw [hfirst]
    simp [Spelling.isWhole]
  · rw [digitsValue_append, digitsValue_append, digitsValue_zeros, hsingle, h.value]
    ring
  · simp only [Option.getD_none, List.length_append, List.length_replicate]
    push_cast
    omega

/-- All digits stand before the point, and some zeros behind them. -/
theorem DigitsOf.spells_before {digits : List Char} (h : DigitsOf digits c) {i : ℕ} (hi : k = i) :
    Spelling.Spells ⟨n, digits ++ List.replicate i '0', ['0'], none⟩ n c k := by
  have hzero : ∀ d ∈ ['0'], d.isDigit = true := List.forall_mem_singleton.mpr rfl
  have hsingle : digitsValue ['0'] = 0 := rfl
  obtain ⟨first, rest, hfirst, hne⟩ := h.first
  refine ⟨⟨fun d hd => ?_, .inr ⟨first, rest ++ List.replicate i '0', ?_, hne⟩, hzero⟩, rfl, rfl,
    i + 1, ?_, ?_⟩
  · exact (List.mem_append.mp hd).elim (h.isDigit d) (isDigit_zeros d)
  · rw [hfirst]
    rfl
  · rw [digitsValue_append, digitsValue_append, digitsValue_zeros, hsingle, h.value,
      List.length_replicate, List.length_singleton]
    ring
  · simp only [Option.getD_none, List.length_singleton]
    push_cast
    omega

/-- The point stands among the digits. -/
theorem DigitsOf.spells_among {digits : List Char} (h : DigitsOf digits c) {i : ℕ}
    (hi : k + digits.length = i + 1) (hbehind : (digits.drop (i + 1)).isEmpty = false) :
    Spelling.Spells ⟨n, digits.take (i + 1), digits.drop (i + 1), none⟩ n c k := by
  obtain ⟨first, rest, hfirst, hne⟩ := h.first
  have hlt : i + 1 < digits.length := by
    rw [List.isEmpty_eq_false_iff, ne_eq, List.drop_eq_nil_iff] at hbehind
    omega
  refine ⟨⟨fun d hd => h.isDigit d (List.mem_of_mem_take hd), .inr ⟨first, rest.take i, ?_, hne⟩,
    fun d hd => h.isDigit d (List.mem_of_mem_drop hd)⟩, rfl, ?_, 0, ?_, ?_⟩
  · rw [hfirst]
    rfl
  · unfold Spelling.isWhole
    rw [hbehind]
    rfl
  · rw [List.take_append_drop, h.value, pow_zero, mul_one]
  · simp only [Option.getD_none, List.length_drop]
    push_cast
    omega

/-- Positional digits are a spelling. -/
theorem exists_spelling_positional (hc : 0 < c) (n : Bool) :
    ∃ s : Spelling, s.Spells n c k ∧
      positionalChars ".0".toList (natChars c) (k + (natChars c).length) =
        s.whole ++ s.fractionTail := by
  have h := digitsOf_natChars hc
  generalize natChars c = digits at h
  obtain ⟨first, rest, hfirst, -⟩ := h.first
  unfold positionalChars
  split
  · rename_i hbefore
    obtain ⟨i, hi⟩ : ∃ i, i = (-(k + digits.length)).toNat := ⟨_, rfl⟩
    refine ⟨_, h.spells_behind (i := i) (by omega), ?_⟩
    rw [← hi, hfirst]
    simp [Spelling.fractionTail, Spelling.exponentTail]
  · split
    · rename_i hbefore hbehind
      obtain ⟨i, hi⟩ : ∃ i, i = (k + digits.length).toNat - digits.length := ⟨_, rfl⟩
      refine ⟨_, h.spells_before (i := i) (by omega), ?_⟩
      rw [← hi]
      rfl
    · rename_i hbefore hbehind
      obtain ⟨i, hi⟩ : ∃ i, i + 1 = (k + digits.length).toNat :=
        ⟨(k + digits.length).toNat - 1, by omega⟩
      have hrest : (digits.drop (i + 1)).isEmpty = false := by
        rw [List.isEmpty_eq_false_iff, ne_eq, List.drop_eq_nil_iff]
        omega
      refine ⟨_, h.spells_among (i := i) (by omega) hrest, ?_⟩
      unfold Spelling.fractionTail Spelling.exponentTail
      rw [← hi, hrest, if_neg Bool.false_ne_true, List.append_nil]

/-- Digits with an exponent are a spelling. -/
theorem exists_spelling_exponent (hc : 0 < c) (n : Bool) :
    ∃ s : Spelling, s.Spells n c k ∧
      exponentChars (natChars c) (k + (natChars c).length) = s.whole ++ s.fractionTail := by
  obtain ⟨hdigits, ⟨first, rest, hfirst, hne⟩, hvalue⟩ := digitsOf_natChars hc
  rw [hfirst] at hdigits hvalue ⊢
  rw [List.forall_mem_cons] at hdigits
  refine ⟨⟨n, [first], rest, some (k + (first :: rest).length - 1)⟩,
    ⟨⟨List.forall_mem_singleton.mpr hdigits.1, .inr ⟨first, [], rfl, hne⟩, hdigits.2⟩, rfl,
      Bool.and_false _, 0, ?_, ?_⟩, ?_⟩
  · rw [List.singleton_append, hvalue, pow_zero, mul_one]
  · simp only [Option.getD_some, List.length_cons]
    push_cast
    omega
  · cases rest with
    | nil => rfl
    | cons second rest => rfl

end

/-- **The text of a finite double in a document is a spelling that is read as this double.** -/
theorem exists_spelling_document {x : Float} (hx : x.isFinite = true) :
    ∃ s : Spelling, s.Proper ∧ s.isWhole = false ∧ Format.document.chars x = s.chars ∧
      s.literal.toFloat = x := by
  obtain ⟨n, m, q, hparts⟩ := isFinite_iff.mp hx
  unfold Format.chars
  rw [hparts]
  rcases Nat.eq_zero_or_pos m with rfl | hm
  · obtain rfl : q = -1074 := (fits_of_parts hparts).full.resolve_left (by decide)
    have hzero : ∀ d ∈ ['0'], d.isDigit = true := List.forall_mem_singleton.mpr rfl
    refine ⟨⟨n, ['0'], ['0'], none⟩, ⟨hzero, .inl rfl, hzero⟩, rfl, ?_, ?_⟩
    · cases n <;> rfl
    · refine eq_of_parts ?_ hparts
      cases n
      · decide +kernel
      · decide +kernel
  have hreads := readsAs_shortest (q := q) hm Format.document.tie
  have hc := pos_of_readsAs hm (fits_of_parts hparts) hreads
  have hspelling : ∃ s : Spelling, s.Spells n (shortest Format.document.tie m q).coefficient
      (shortest Format.document.tie m q).exponent ∧
      Format.document.digits (shortest Format.document.tie m q) = s.whole ++ s.fractionTail := by
    unfold Format.digits
    dsimp only
    split
    · exact exists_spelling_positional hc n
    · exact exists_spelling_exponent hc n
  obtain ⟨s, hspells, hchars⟩ := hspelling
  refine ⟨s, hspells.proper, hspells.real, ?_, ?_⟩
  · unfold Spelling.chars
    dsimp only
    rw [if_neg hm.ne', hchars, hspells.negative]
  · refine Literal.toFloat_eq (m := m) (q := q) ?_ hm (hspells.value_eq ▸ hreads)
    rw [hparts]
    exact congrArg (Parts.finite · m q) hspells.negative.symm

end BlockSteps.Decimal

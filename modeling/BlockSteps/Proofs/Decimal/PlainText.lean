import Mathlib
import BlockSteps.Compile.Value
import BlockSteps.Proofs.Json.Scanning

/-!
# The plain text of a number is read as the number

Where the editor shows a number as a text, and the text is then read as a number, nothing is lost.
The plain form writes the shortest digits that read back, so for a double that is not zero this
rests on `readsAs_shortest`; the digits have a spelling (`exists_spelling_plain`), and every proper
spelling is read as the literal that it spells (`literal?_chars`).  The two zeros are written as `0`
and `-0`, and these are read with their signs.

**Main statements.**  `number?_plain` for finite numbers.  What is not finite is written as a word,
and the word is read as a double that is not finite either (`exists_number?_plain`).
-/

namespace BlockSteps

/-! ## Texts without blanks -/

/-- Nothing is trimmed from a text without blanks. -/
theorem Text.trimmed_eq_self {cs : List Char} (h : ∀ c ∈ cs, isBlank c = false) :
    trimmed cs = cs := by
  have key : ∀ {l : List Char}, (∀ c ∈ l, isBlank c = false) → l.dropWhile isBlank = l := by
    intro l hl
    rw [List.dropWhile_eq_self_iff]
    intro hpos
    simpa using hl _ (List.getElem_mem hpos)
  have hreverse : ∀ c ∈ cs.reverse, isBlank c = false := fun c hc => h c (List.mem_reverse.mp hc)
  unfold trimmed
  rw [key h, key hreverse, List.reverse_reverse]

theorem Text.isBlank_eq_false_of_isDigit {c : Char} (h : c.isDigit = true) : isBlank c = false := by
  have hrange : 48 ≤ c.toNat ∧ c.toNat ≤ 57 := by
    simp only [Char.isDigit, Bool.and_eq_true, decide_eq_true_eq, ge_iff_le,
      UInt32.le_iff_toNat_le] at h
    exact h
  unfold isBlank
  generalize c.toNat = n at hrange
  obtain ⟨hlow, hhigh⟩ := hrange
  interval_cases n <;> rfl

namespace Decimal

/-! ## Spellings are read -/

theorem exponentOf?_exponentTail (s : Spelling) :
    exponentOf? s.exponentTail = some (s.exponent.getD 0) := by
  unfold Spelling.exponentTail
  cases s.exponent with
  | none => rfl
  | some e =>
    have hsign := Json.signOf_intChars (e := e) []
    rw [List.append_nil, List.append_nil] at hsign
    have hempty : (natChars e.natAbs).isEmpty = false :=
      List.isEmpty_eq_false_iff.mpr Nat.toDigits_ne_nil
    have hdigits : (natChars e.natAbs).all Char.isDigit = true :=
      List.all_eq_true.mpr fun c => isDigit_natChars
    dsimp only
    rw [exponentOf?, if_pos (.inl rfl), hsign]
    dsimp only
    rw [if_neg (by simp [hempty, hdigits]), digitsValue_natChars, Option.getD_some]
    by_cases hneg : e < 0
    · rw [if_pos (decide_eq_true hneg)]
      congr 1
      omega
    · rw [if_neg (by simpa using hneg)]
      congr 1
      omega

/-- An exponent begins with neither a digit nor a point. -/
theorem head_exponentTail (s : Spelling) :
    ∀ c ∈ s.exponentTail.head?, c.isDigit = false ∧ c ≠ '.' := by
  have hends : Json.EndsNumber [] := nofun
  have hhead := Json.endsDigits_exponentTail s hends
  rwa [List.append_nil] at hhead

theorem fractionRun_fractionTail {s : Spelling} (hs : s.Proper) :
    fractionRun s.fractionTail = (s.fraction, s.exponentTail) := by
  have htail := head_exponentTail s
  unfold Spelling.fractionTail
  by_cases hempty : s.fraction.isEmpty = true
  · rw [if_pos hempty, List.isEmpty_iff.mp hempty]
    unfold fractionRun
    split
    · rename_i h
      exact absurd rfl (htail '.' (h ▸ rfl)).2
    · rfl
  · rw [if_neg hempty]
    exact Json.digitRun_append hs.fraction fun c hc => (htail c hc).1

/-- **A spelled number is read as it is spelled.** -/
theorem literal?_chars {s : Spelling} (hs : s.Proper) : literal? s.chars = some s.literal := by
  obtain ⟨c, cs, hwhole⟩ : ∃ c cs, s.whole = c :: cs := by
    rcases hs.leading with hzero | ⟨c, cs, hwhole, -⟩
    · exact ⟨'0', [], hzero⟩
    · exact ⟨c, cs, hwhole⟩
  have hsign : signOf s.chars = (s.negative, s.whole ++ s.fractionTail) := by
    unfold Spelling.chars
    cases s.negative with
    | true => rfl
    | false =>
      rw [if_neg Bool.false_ne_true, hwhole, List.cons_append]
      exact signOf_of_isDigit (hs.whole c (hwhole ▸ List.mem_cons_self)) _
  have htail : ∀ c ∈ s.fractionTail.head?, c.isDigit = false := by
    intro c hc
    unfold Spelling.fractionTail at hc
    split at hc
    · exact (head_exponentTail s c hc).1
    · obtain rfl : '.' = c := Option.some.inj hc
      decide
  unfold literal?
  rw [hsign]
  dsimp only
  rw [Json.digitRun_append hs.whole htail]
  dsimp only
  rw [fractionRun_fractionTail hs]
  dsimp only
  rw [if_neg (by simp [hwhole]), exponentOf?_exponentTail]
  rfl

/-! ## The plain form -/

/-- A number that is laid out without an exponent, and without a point if it is whole, is a spelling
of its value. -/
theorem exists_spelling_withoutTail {c : ℕ} {k : ℤ} (hc : 0 < c) (n : Bool) :
    ∃ s : Spelling, s.Proper ∧ s.negative = n ∧ s.exponent = none ∧
      (s.literal.coefficient : ℚ) * 10 ^ s.literal.exponent = c * 10 ^ k ∧
      positionalChars [] (natChars c) (k + (natChars c).length) = s.whole ++ s.fractionTail := by
  have h := digitsOf_natChars hc
  generalize natChars c = digits at h
  obtain ⟨first, rest, hfirst, hne⟩ := h.first
  unfold positionalChars
  by_cases hbefore : k + digits.length ≤ 0
  · obtain ⟨i, hi⟩ : ∃ i, i = (-(k + digits.length)).toNat := ⟨_, rfl⟩
    have hspells := h.spells_behind (n := n) (k := k) (i := i) (by omega)
    refine ⟨_, hspells.proper, rfl, rfl, hspells.value_eq, ?_⟩
    rw [if_pos hbefore, ← hi, hfirst]
    simp [Spelling.fractionTail, Spelling.exponentTail]
  · rw [if_neg hbefore]
    by_cases hbehind : digits.length ≤ (k + digits.length).toNat
    · -- A whole number: zeros are written behind its digits, and no point.
      obtain ⟨i, rfl⟩ : ∃ i : ℕ, k = i := ⟨k.toNat, by omega⟩
      have hzeros : ((i : ℤ) + digits.length).toNat - digits.length = i := by omega
      refine ⟨⟨n, digits ++ List.replicate i '0', [], none⟩, ⟨fun d hd => ?_,
        .inr ⟨first, rest ++ List.replicate i '0', ?_, hne⟩, List.forall_mem_nil _⟩, rfl, rfl,
        ?_, ?_⟩
      · exact (List.mem_append.mp hd).elim (h.isDigit d) (isDigit_zeros d)
      · rw [hfirst]
        rfl
      · simp only [Spelling.literal, List.append_nil, digitsValue_append, digitsValue_zeros,
          h.value, List.length_replicate, Option.getD_none, List.length_nil, zpow_natCast]
        push_cast
        simp
      · rw [if_pos hbehind, hzeros]
        rfl
    · obtain ⟨i, hi⟩ : ∃ i, i + 1 = (k + digits.length).toNat :=
        ⟨(k + digits.length).toNat - 1, by omega⟩
      have hrest : (digits.drop (i + 1)).isEmpty = false := by
        rw [List.isEmpty_eq_false_iff, ne_eq, List.drop_eq_nil_iff]
        omega
      have hspells := h.spells_among (n := n) (k := k) (i := i) (by omega) hrest
      refine ⟨_, hspells.proper, rfl, rfl, hspells.value_eq, ?_⟩
      unfold Spelling.fractionTail Spelling.exponentTail
      rw [if_neg hbehind, ← hi, hrest, if_neg Bool.false_ne_true, List.append_nil]

/-- The text of a finite number is a proper spelling, without an exponent, of a literal that is read
as this number. -/
theorem exists_spelling_plain {x : Float} (hx : x.isFinite = true) :
    ∃ s : Spelling, s.Proper ∧ s.exponent = none ∧ Format.plain.chars x = s.chars ∧
      s.literal.toFloat = x := by
  obtain ⟨n, m, q, hparts⟩ := isFinite_iff.mp hx
  unfold Format.chars
  rw [hparts]
  rcases Nat.eq_zero_or_pos m with rfl | hm
  · obtain rfl : q = -1074 := (fits_of_parts hparts).full.resolve_left (by decide)
    refine ⟨⟨n, ['0'], [], none⟩,
      ⟨List.forall_mem_singleton.mpr rfl, .inl rfl, List.forall_mem_nil _⟩, rfl, ?_, ?_⟩
    · cases n <;> rfl
    · refine eq_of_parts ?_ hparts
      cases n
      · decide +kernel
      · decide +kernel
  · have hreads := readsAs_shortest (q := q) hm Format.plain.tie
    have hc := pos_of_readsAs hm (fits_of_parts hparts) hreads
    obtain ⟨s, hs, hnegative, hexponent, hvalue, hchars⟩ := exists_spelling_withoutTail hc n
    refine ⟨s, hs, hexponent, ?_, Literal.toFloat_eq ?_ hm (hvalue ▸ hreads)⟩
    · unfold Spelling.chars
      rw [← hchars, hnegative]
      dsimp only
      rw [if_neg hm.ne']
      rfl
    · rw [hparts]
      exact congrArg (Parts.finite · m q) hnegative.symm

theorem isBlank_eq_false_of_mem_chars {s : Spelling} (hs : s.Proper)
    (hexponent : s.exponent = none) : ∀ c ∈ s.chars, Text.isBlank c = false := by
  have hwhole : ∀ c ∈ s.whole, Text.isBlank c = false := fun c hc =>
    Text.isBlank_eq_false_of_isDigit (hs.whole c hc)
  have hfraction : ∀ c ∈ s.fraction, Text.isBlank c = false := fun c hc =>
    Text.isBlank_eq_false_of_isDigit (hs.fraction c hc)
  have htail : ∀ c ∈ s.fractionTail, Text.isBlank c = false := by
    unfold Spelling.fractionTail Spelling.exponentTail
    rw [hexponent]
    split
    · exact List.forall_mem_nil _
    · rw [List.append_nil, List.forall_mem_cons]
      exact ⟨rfl, hfraction⟩
  have hmagnitude : ∀ c ∈ s.whole ++ s.fractionTail, Text.isBlank c = false :=
    List.forall_mem_append.mpr ⟨hwhole, htail⟩
  unfold Spelling.chars
  split
  · exact List.forall_mem_cons.mpr ⟨rfl, hmagnitude⟩
  · exact hmagnitude

/-- **The plain text of a finite number is read as the number.** -/
theorem number?_plain {x : Float} (hx : x.isFinite = true) :
    number? (Text.trimmed (plain x).toList) = some x := by
  obtain ⟨s, hs, hexponent, hchars, hfloat⟩ := exists_spelling_plain hx
  unfold plain Format.write
  rw [String.toList_ofList, hchars,
    Text.trimmed_eq_self (isBlank_eq_false_of_mem_chars hs hexponent)]
  unfold number?
  rw [literal?_chars hs]
  exact congrArg some hfloat

/-- What is not finite is written as a word that is read as what is not finite. -/
theorem exists_number?_plain {x : Float} (hx : x.isFinite = false) :
    ∃ y, number? (Text.trimmed (plain x).toList) = some y ∧ y.isFinite = false := by
  unfold plain Format.write Format.chars
  rw [String.toList_ofList]
  cases hparts : parts x with
  | nan => exact ⟨0 / 0, by decide +kernel, by decide +kernel⟩
  | infinite n =>
    cases n with
    | false => exact ⟨1 / 0, by decide +kernel, by decide +kernel⟩
    | true => exact ⟨-(1 / 0), by decide +kernel, by decide +kernel⟩
  | finite n m q =>
    rw [isFinite_iff.mpr ⟨n, m, q, hparts⟩] at hx
    cases hx

end Decimal

/-! ## Literals as texts -/

namespace FieldValue

/-- A text that names a double is a number if the double is finite. -/
theorem number?_text {s : String} {x : Float}
    (h : Decimal.number? (Text.trimmed s.toList) = some x) (block : BlockId) (field : String) :
    (FieldValue.text s).number? block field =
      if x.isFinite then .ok (some x) else .error (.malformedLiteral block field s) := by
  unfold number?
  dsimp only
  split
  · rename_i hempty
    rw [List.isEmpty_iff.mp hempty] at h
    cases h
  · rw [h]
    rfl

/-- **A literal and its text are read alike** where a number is wanted: as one number, as none, or
as one malformed literal. -/
theorem number?_shown (v : FieldValue) (block : BlockId) (field : String) :
    (FieldValue.text v.shown).number? block field = v.number? block field := by
  cases v with
  | number x =>
    cases hx : x.isFinite with
    | true => rw [shown, number?_text (Decimal.number?_plain hx)]; rfl
    | false =>
      obtain ⟨y, hread, hy⟩ := Decimal.exists_number?_plain hx
      rw [shown, number?_text hread, hy, number?]
      dsimp only
      rw [hx]
      rfl
  | text s => rfl
  | flag b => cases b <;> rfl

end FieldValue

end BlockSteps

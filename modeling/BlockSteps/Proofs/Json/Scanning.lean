import Mathlib
import BlockSteps.Json.Scanner
import BlockSteps.Proofs.Decimal.Spelling
import BlockSteps.Proofs.Json.Written

/-!
# Scanning what was written

Strings and numbers are the leaves of a JSON text, and the scanner has rules of its own for
each.  Of a string it makes a row of pieces, because an escape may name half of a character; what
the writer escapes never does (`scanText_textChars`).  Of a number it wants a sign, digits without a
zero before them, and maybe a point and an exponent, and it stops at the first character with which
no number goes on: that is a `Spelling` (`scanMagnitude_spelling`).

The numbers of a document have such a spelling: whole ones of 64 bits
(`exists_spelling_intChars`), and finite ones (`exists_spelling_document`).  The value of a whole
number that is read again is this number, whatever `Rounding` there is.
-/

namespace BlockSteps.Json

open Decimal (Spelling)

/-! ## Blanks -/

/-- A character that may stand between the signs of a text. -/
def IsBlank (c : Char) : Prop := c = ' ' ∨ c = '\n' ∨ c = '\t' ∨ c = '\r'

theorem skipBlanks_append {blanks cs : List Char} (h : ∀ c ∈ blanks, IsBlank c) :
    skipBlanks (blanks ++ cs) = skipBlanks cs := by
  induction blanks with
  | nil => rfl
  | cons c blanks ih =>
    rw [List.forall_mem_cons] at h
    rw [List.cons_append, skipBlanks, ih h.2]
    exact if_pos h.1

theorem skipBlanks_cons {c : Char} {cs : List Char} (h : ¬ IsBlank c) :
    skipBlanks (c :: cs) = c :: cs := by
  rw [skipBlanks]
  exact if_neg h

theorem isBlank_breakChars (layout : Layout) (depth : ℕ) :
    ∀ c ∈ layout.breakChars depth, IsBlank c := by
  cases layout with
  | compact => exact fun c hc => absurd hc List.not_mem_nil
  | indented =>
    intro c hc
    rcases List.mem_cons.mp hc with rfl | hc
    · exact .inr (.inl rfl)
    · exact .inl (List.eq_of_mem_replicate hc)

theorem isBlank_colonBlank (layout : Layout) : ∀ c ∈ layout.colonBlank, IsBlank c := by
  cases layout with
  | compact => exact fun c hc => absurd hc List.not_mem_nil
  | indented => exact fun c hc => .inl (List.mem_singleton.mp hc)

/-! ## Strings -/

/-- What the scanner makes of one written character: control characters that have no letter are
written by their number. -/
def pieceOf (c : Char) : Piece :=
  if c.toNat < 32 ∧ c.toNat ∉ [8, 9, 10, 12, 13] then .unit c.toNat else .char c

theorem hexDigitsValue_control : ∀ n < 32,
    hexDigitsValue? ['0', '0', Nat.digitChar (n / 16), Nat.digitChar (n % 16)] = some n := by
  decide

theorem scanPieces_escapedChar (done : List Piece) (c : Char) (cs : List Char) :
    scanPieces done (escapedChar c ++ cs) = scanPieces (pieceOf c :: done) cs := by
  have hchar : ∀ {n : ℕ} {d : Char}, c.toNat = n → d.toNat = n → c = d := fun hc hd =>
    Char.toNat_inj.mp (hc.trans hd.symm)
  unfold escapedChar
  split_ifs with hquote hslash hback htab hline hfeed hreturn hcontrol
  · subst hquote
    rfl
  · subst hslash
    rfl
  · obtain rfl : c = '\x08' := hchar hback rfl
    rfl
  · subst htab
    rfl
  · subst hline
    rfl
  · obtain rfl : c = '\x0c' := hchar hfeed rfl
    rfl
  · subst hreturn
    rfl
  · -- A control character without a letter.
    have hpiece : pieceOf c = .unit c.toNat := by
      refine if_pos ⟨hcontrol, ?_⟩
      simp only [List.mem_cons, List.not_mem_nil, or_false, not_or]
      exact ⟨hback, fun h => htab (hchar h rfl), fun h => hline (hchar h rfl), hfeed,
        fun h => hreturn (hchar h rfl)⟩
    show scanPieces done ('\\' :: 'u' :: '0' :: '0' :: Nat.digitChar (c.toNat / 16) ::
      Nat.digitChar (c.toNat % 16) :: cs) = _
    rw [hpiece, scanPieces, hexDigitsValue_control c.toNat hcontrol]
  · have hpiece : pieceOf c = .char c := if_neg fun h => hcontrol h.1
    rw [hpiece, List.singleton_append]
    rw [scanPieces.eq_def]
    split <;> simp_all

/-- A code unit that is no half of a pair is a character, whatever follows it. -/
theorem joinPieces_unit {done : List Char} {n : ℕ} {rest : List Piece}
    (hleading : isLeading n = false) (htrailing : isTrailing n = false) :
    joinPieces done (.unit n :: rest) = joinPieces (Char.ofNat n :: done) rest := by
  rcases rest with _ | ⟨c | m, rest⟩
  · rw [joinPieces.eq_def]
    simp [hleading, htrailing]
  · rw [joinPieces.eq_def]
    simp [hleading, htrailing]
  · rw [joinPieces.eq_def]
    simp [hleading, htrailing]

/-- Pieces of written characters are joined to the characters. -/
theorem joinPieces_map_pieceOf (done cs : List Char) :
    joinPieces done (cs.map pieceOf) = some (done.reverse ++ cs) := by
  induction cs generalizing done with
  | nil => rw [List.append_nil]; rfl
  | cons c cs ih =>
    have hstep : joinPieces done (pieceOf c :: cs.map pieceOf) =
        joinPieces (c :: done) (cs.map pieceOf) := by
      unfold pieceOf
      split
      · rw [joinPieces_unit (decide_eq_false (by omega)) (decide_eq_false (by omega)),
          Char.ofNat_toNat]
      · rfl
    rw [List.map_cons, hstep, ih, List.reverse_cons, List.append_assoc]
    rfl

/-- **A written string is scanned as it was.** -/
theorem scanText_textChars (s : String) (rest : List Char) :
    scanText (s.toList.flatMap escapedChar ++ '"' :: rest) = .ok (some s, rest) := by
  have hpieces : ∀ (cs : List Char) (done : List Piece),
      scanPieces done (cs.flatMap escapedChar ++ '"' :: rest) =
        ((cs.map pieceOf).reverse ++ done, .ok rest) := by
    intro cs
    induction cs with
    | nil => exact fun done => rfl
    | cons c cs ih =>
      intro done
      rw [List.flatMap_cons, List.append_assoc, scanPieces_escapedChar, ih, List.map_cons,
        List.reverse_cons, List.append_assoc]
      rfl
  unfold scanText
  rw [hpieces, List.append_nil]
  dsimp only
  rw [List.reverse_reverse]
  unfold textOfPieces?
  rw [joinPieces_map_pieceOf]
  simp

/-! ## Numbers -/

/-- No number goes on with these characters. -/
def EndsNumber (cs : List Char) : Prop :=
  ∀ c ∈ cs.head?, c.isDigit = false ∧ c ≠ '.' ∧ c ≠ 'e' ∧ c ≠ 'E'

theorem digitRun_append {digits cs : List Char} (hdigits : ∀ c ∈ digits, c.isDigit = true)
    (hcs : ∀ c ∈ cs.head?, c.isDigit = false) :
    Decimal.digitRun (digits ++ cs) = (digits, cs) := by
  unfold Decimal.digitRun
  rw [List.span_eq_takeWhile_dropWhile, List.takeWhile_append_of_pos hdigits,
    List.dropWhile_append_of_pos hdigits]
  cases cs with
  | nil => simp
  | cons c cs =>
    have hc := hcs c rfl
    simp [hc]

theorem signOf_intChars {e : ℤ} (rest : List Char) :
    Decimal.signOf (Decimal.intChars e ++ rest) =
      (decide (e < 0), Decimal.natChars e.natAbs ++ rest) := by
  unfold Decimal.intChars
  by_cases hneg : e < 0
  · rw [if_pos hneg, decide_eq_true hneg]
    rfl
  · rw [if_neg hneg, decide_eq_false hneg]
    rcases hdigits : Decimal.natChars e.natAbs with _ | ⟨c, digits⟩
    · exact absurd hdigits Nat.toDigits_ne_nil
    · exact Decimal.signOf_of_isDigit (Decimal.isDigit_natChars (hdigits ▸ List.mem_cons_self)) _

theorem scanExponent_exponentTail {s : Spelling} {rest : List Char} (hrest : EndsNumber rest)
    (negative : Bool) (whole fraction : List Char) :
    scanExponent negative whole fraction (s.exponentTail ++ rest) =
      (.number ⟨negative, whole, fraction, s.exponent⟩, some rest) := by
  unfold Spelling.exponentTail
  cases s.exponent with
  | none =>
    cases rest with
    | nil => simp [scanExponent]
    | cons c rest =>
      obtain ⟨-, -, he, hE⟩ := hrest c rfl
      simp [scanExponent, he, hE]
  | some e =>
    have hdigits : ∀ c ∈ Decimal.natChars e.natAbs, c.isDigit = true := fun c =>
      Decimal.isDigit_natChars
    have hempty : (Decimal.natChars e.natAbs).isEmpty = false :=
      List.isEmpty_eq_false_iff.mpr Nat.toDigits_ne_nil
    have hvalue : (if decide (e < 0) = true then -((e.natAbs : ℕ) : ℤ) else e.natAbs) = e := by
      by_cases hneg : e < 0
      · rw [if_pos (decide_eq_true hneg)]
        omega
      · rw [if_neg (by simpa using hneg)]
        omega
    rw [List.cons_append, scanExponent, if_pos (.inl rfl), signOf_intChars]
    dsimp only
    rw [digitRun_append hdigits fun c hc => (hrest c hc).1]
    dsimp only
    rw [hempty, if_neg Bool.false_ne_true, Decimal.digitsValue_natChars, hvalue]

/-- Neither digits nor a point follow the digits before an exponent. -/
theorem endsDigits_exponentTail (s : Spelling) {rest : List Char} (hrest : EndsNumber rest) :
    ∀ c ∈ (s.exponentTail ++ rest).head?, c.isDigit = false ∧ c ≠ '.' := by
  intro c hc
  unfold Spelling.exponentTail at hc
  cases hexponent : s.exponent with
  | none =>
    rw [hexponent] at hc
    exact ⟨(hrest c hc).1, (hrest c hc).2.1⟩
  | some e =>
    rw [hexponent] at hc
    obtain rfl : 'e' = c := Option.some.inj hc
    exact ⟨by decide, by decide⟩

theorem scanFraction_fractionTail {s : Spelling} (hs : s.Proper) {rest : List Char}
    (hrest : EndsNumber rest) :
    scanFraction s.negative s.whole (s.fractionTail ++ rest) =
      (.number s, some rest) := by
  have htail := endsDigits_exponentTail s hrest
  unfold Spelling.fractionTail
  by_cases hempty : s.fraction.isEmpty = true
  · have hscan : scanFraction s.negative s.whole (s.exponentTail ++ rest) =
        scanExponent s.negative s.whole [] (s.exponentTail ++ rest) := by
      unfold scanFraction
      split
      · rename_i h
        exact absurd rfl (htail '.' (h ▸ rfl)).2
      · rfl
    rw [if_pos hempty, hscan, scanExponent_exponentTail hrest, ← List.isEmpty_iff.mp hempty]
  · rw [if_neg hempty, List.cons_append, List.append_assoc, scanFraction,
      digitRun_append hs.fraction fun c hc => (htail c hc).1]
    dsimp only
    rw [if_neg hempty, scanExponent_exponentTail hrest]

/-- **A spelled number is scanned as it is spelled.** -/
theorem scanMagnitude_spelling {s : Spelling} (hs : s.Proper) {rest : List Char}
    (hrest : EndsNumber rest) :
    scanMagnitude s.negative (s.whole ++ (s.fractionTail ++ rest)) =
      (.number s, some rest) := by
  have htail : ∀ c ∈ (s.fractionTail ++ rest).head?, c.isDigit = false := by
    intro c hc
    unfold Spelling.fractionTail at hc
    split at hc
    · exact (endsDigits_exponentTail s hrest c hc).1
    · obtain rfl : '.' = c := Option.some.inj hc
      decide
  have hfraction := scanFraction_fractionTail hs hrest
  rcases hs.leading with hzero | ⟨c, digits, hwhole, hc⟩
  · rw [hzero] at hfraction ⊢
    generalize s.fractionTail ++ rest = tail at htail hfraction
    cases tail with
    | nil => exact hfraction
    | cons c tail =>
      rw [List.singleton_append, scanMagnitude,
        if_neg (by rw [htail c rfl]; exact Bool.false_ne_true)]
      exact hfraction
  · have hempty : s.whole.isEmpty = false := by rw [hwhole]; rfl
    have hrun := digitRun_append hs.whole htail
    have hscan : scanMagnitude s.negative (s.whole ++ (s.fractionTail ++ rest)) =
        scanFraction s.negative s.whole (s.fractionTail ++ rest) := by
      rw [scanMagnitude.eq_def]
      split
      · rename_i h
        rw [hwhole] at h
        cases h
        exact absurd rfl hc
      · rw [hrun]
        dsimp only
        rw [hempty, if_neg Bool.false_ne_true]
    rw [hscan]
    exact hfraction

/-- A whole number is a proper spelling of itself. -/
theorem exists_spelling_intChars {n : ℤ} (hlow : -2 ^ 63 ≤ n) (hhigh : n < 2 ^ 64) :
    ∃ s : Spelling, s.Proper ∧ Decimal.intChars n = s.chars ∧
      ∀ [Rounding], Numeral.value? s = some (.integer n) := by
  refine ⟨⟨decide (n < 0), Decimal.natChars n.natAbs, [], none⟩,
    ⟨fun c => Decimal.isDigit_natChars, ?_, nofun⟩, ?_, fun {_} => ?_⟩
  · by_cases hzero : n.natAbs = 0
    · rw [hzero]
      exact .inl rfl
    · exact .inr (Decimal.exists_natChars_eq_cons (Nat.pos_of_ne_zero hzero))
  · unfold Decimal.intChars Spelling.chars Spelling.fractionTail Spelling.exponentTail
    simp
  · have hsize : UInt64.size = 2 ^ 64 := rfl
    have hmin : Int64.minValue.toInt = -2 ^ 63 := rfl
    unfold Numeral.value? Spelling.literal Spelling.isWhole
    dsimp only
    rw [List.append_nil, Decimal.digitsValue_natChars, hsize, hmin]
    by_cases hneg : n < 0
    · rw [decide_eq_true hneg, if_neg (by simp), if_pos (by
        simp only [List.isEmpty_nil, Option.isNone_none, Bool.true_and, decide_eq_true_iff]
        omega)]
      congr 2
      omega
    · rw [decide_eq_false hneg, if_pos (by
        simp only [List.isEmpty_nil, Option.isNone_none, Bool.true_and, Bool.not_false,
          decide_eq_true_iff]
        omega)]
      congr 2
      omega

end BlockSteps.Json

import Mathlib
import BlockSteps.Proofs.Json.Scanning

/-!
# How a text is laid out

Whether a text is compact or indented can be told from its characters alone, by someone who knows
where strings begin and end and nothing else of JSON.  A compact text has no blanks outside of
strings (`IsCompact`).  An indented one has the blanks that its signs call for and no others: a new
line behind an opening bracket and behind a comma, one before a closing bracket, a blank behind a
colon, and nothing between two brackets that hold nothing.  So it is what comes out when its blanks
are dropped (`squeezed`) and put in again (`laidOut`); that is `IsIndented`.

**Main statements.**  `isCompact_write` and `isIndented_write` for every value, and
`squeezed_write`: without its blanks the text of a value is the compact one, whatever its layout
was.
-/

namespace BlockSteps.Json

open Decimal (Spelling)

instance : DecidablePred IsBlank := fun c =>
  inferInstanceAs (Decidable (c = ' ' ∨ c = '\n' ∨ c = '\t' ∨ c = '\r'))

/-! ## Inside and outside of strings -/

/-- Where a character of a text stands. -/
inductive Spot where
  /-- Outside of strings. -/
  | outside
  /-- In a string. -/
  | inside
  /-- In a string, behind a backslash. -/
  | escaped
  deriving DecidableEq

/-- Where the next character stands. -/
def Spot.after : Spot → Char → Spot
  | .outside, c => if c = '"' then .inside else .outside
  | .inside, c => if c = '"' then .outside else if c = '\\' then .escaped else .inside
  | .escaped, _ => .inside

/-- The text without the blanks that stand outside of strings. -/
def squeezed : Spot → List Char → List Char
  | _, [] => []
  | spot, c :: cs =>
    if spot = .outside ∧ IsBlank c then squeezed spot cs else c :: squeezed (spot.after c) cs

/-- A new line, two blanks further in for each level. -/
def lineBreak (depth : ℕ) : List Char := '\n' :: List.replicate (2 * depth) ' '

/-- A text without blanks, so many levels deep, with the blanks of the indented layout put in.  A
bracket that was just `opened` waits for what stands behind it. -/
def laidOut : Spot → (opened : Bool) → (depth : ℕ) → List Char → List Char
  | _, _, _, [] => []
  | .outside, opened, depth, c :: cs =>
    if c = ']' ∨ c = '\x7d' then
      (if opened then [] else lineBreak (depth - 1)) ++
        c :: laidOut .outside false (depth - 1) cs
    else
      (if opened then lineBreak depth else []) ++ c ::
        if c = '[' ∨ c = '\x7b' then laidOut .outside true (depth + 1) cs
        else if c = ',' then lineBreak depth ++ laidOut .outside false depth cs
        else if c = ':' then ' ' :: laidOut .outside false depth cs
        else laidOut (Spot.outside.after c) false depth cs
  | .inside, _, depth, c :: cs => c :: laidOut (Spot.inside.after c) false depth cs
  | .escaped, _, depth, c :: cs => c :: laidOut (Spot.escaped.after c) false depth cs

/-- No blank stands outside of a string. -/
def IsCompact (text : String) : Prop := squeezed .outside text.toList = text.toList

/-- The blanks outside of strings are those of the indented layout. -/
def IsIndented (text : String) : Prop :=
  laidOut .outside false 0 (squeezed .outside text.toList) = text.toList

instance : DecidablePred IsCompact := fun _ => inferInstanceAs (Decidable (_ = _))

instance : DecidablePred IsIndented := fun _ => inferInstanceAs (Decidable (_ = _))

variable {cs rest : List Char} {depth : ℕ}

/-! ## Strings -/

/-- The characters are those of one string, up to its end at most. -/
def InString : Spot → List Char → Prop
  | _, [] => True
  | spot, c :: cs => spot ≠ .outside ∧ InString (spot.after c) cs

theorem squeezed_of_inString {spot : Spot} (h : InString spot cs) :
    squeezed spot (cs ++ rest) = cs ++ squeezed (cs.foldl Spot.after spot) rest := by
  induction cs generalizing spot with
  | nil => rfl
  | cons c cs ih =>
    rw [List.cons_append, squeezed, if_neg fun hblank => h.1 hblank.1, ih h.2]
    rfl

theorem laidOut_of_inString {spot : Spot} (hne : cs ≠ []) (h : InString spot cs) (opened : Bool) :
    laidOut spot opened depth (cs ++ rest) =
      cs ++ laidOut (cs.foldl Spot.after spot) false depth rest := by
  induction cs generalizing spot opened with
  | nil => exact absurd rfl hne
  | cons c cs ih =>
    have hstep : laidOut spot opened depth (c :: (cs ++ rest)) =
        c :: laidOut (spot.after c) false depth (cs ++ rest) := by
      cases spot with
      | outside => exact absurd rfl h.1
      | inside => rw [laidOut]
      | escaped => rw [laidOut]
    rw [List.cons_append, hstep]
    cases cs with
    | nil => rfl
    | cons d cs =>
      rw [ih (List.cons_ne_nil d cs) h.2]
      rfl

theorem inString_append {spot : Spot} {cs ds : List Char} (h : InString spot cs)
    (hds : InString (cs.foldl Spot.after spot) ds) : InString spot (cs ++ ds) := by
  induction cs generalizing spot with
  | nil => exact hds
  | cons c cs ih => exact ⟨h.1, ih h.2 hds⟩

/-- A character that neither ends a string nor escapes another one. -/
theorem after_inside {c : Char} (hquote : c ≠ '"') (hslash : c ≠ '\\') :
    Spot.inside.after c = .inside := by
  rw [Spot.after, if_neg hquote, if_neg hslash]

theorem inString_escapedChar (c : Char) :
    InString .inside (escapedChar c) ∧
      (escapedChar c).foldl Spot.after .inside = .inside := by
  have hletter : ∀ d : Char, InString .inside ['\\', d] ∧
      ['\\', d].foldl Spot.after .inside = .inside := fun d =>
    ⟨⟨by decide, by decide, trivial⟩, rfl⟩
  unfold escapedChar
  split_ifs with hquote hslash _ _ _ _ _ hcontrol
  · exact hletter _
  · exact hletter _
  · exact hletter _
  · exact hletter _
  · exact hletter _
  · exact hletter _
  · exact hletter _
  · -- A control character is written by its number.
    have hdigits : ∀ n < 32, InString .inside ['\\', 'u', '0', '0', Nat.digitChar (n / 16),
        Nat.digitChar (n % 16)] ∧ ['\\', 'u', '0', '0', Nat.digitChar (n / 16),
        Nat.digitChar (n % 16)].foldl Spot.after .inside = .inside := by
      intro n hn
      interval_cases n <;> exact ⟨by simp [InString, Spot.after, Nat.digitChar], by decide⟩
    exact hdigits c.toNat hcontrol
  · exact ⟨⟨by decide, trivial⟩, after_inside hquote hslash⟩

theorem inString_flatMap (s : List Char) :
    InString .inside (s.flatMap escapedChar) ∧
      (s.flatMap escapedChar).foldl Spot.after .inside = .inside := by
  induction s with
  | nil => exact ⟨trivial, rfl⟩
  | cons c s ih =>
    obtain ⟨hc, hafter⟩ := inString_escapedChar c
    rw [List.flatMap_cons, List.foldl_append, hafter]
    exact ⟨inString_append hc (by rw [hafter]; exact ih.1), ih.2⟩

/-- A written string, behind its opening quotation mark. -/
theorem inString_quoted (s : String) :
    InString .inside (s.toList.flatMap escapedChar ++ ['"']) ∧
      (s.toList.flatMap escapedChar ++ ['"']).foldl Spot.after .inside = .outside := by
  obtain ⟨hs, hafter⟩ := inString_flatMap s.toList
  rw [List.foldl_append, hafter]
  exact ⟨inString_append hs (by rw [hafter]; exact ⟨by decide, trivial⟩), rfl⟩

theorem squeezed_textChars (s : String) :
    squeezed .outside (textChars s ++ rest) = textChars s ++ squeezed .outside rest := by
  obtain ⟨hs, hafter⟩ := inString_quoted s
  have hquote : Spot.outside.after '"' = .inside := rfl
  rw [textChars, List.cons_append, squeezed, if_neg (by decide), hquote, squeezed_of_inString hs,
    hafter, List.cons_append]

theorem laidOut_textChars (s : String) :
    laidOut .outside false depth (textChars s ++ rest) =
      textChars s ++ laidOut .outside false depth rest := by
  obtain ⟨hs, hafter⟩ := inString_quoted s
  have hquote : Spot.outside.after '"' = .inside := rfl
  rw [textChars, List.cons_append, laidOut, if_neg (by decide), if_neg Bool.false_ne_true,
    if_neg (by decide), if_neg (by decide), if_neg (by decide), hquote,
    laidOut_of_inString (by simp) hs, hafter]
  rfl

/-! ## Words and numbers -/

/-- A character that calls for no blank, outside of strings, and is none. -/
def IsPlain (c : Char) : Prop := ¬ IsBlank c ∧ c ∉ ['"', '[', ']', '\x7b', '\x7d', ',', ':']

instance : DecidablePred IsPlain := fun c =>
  inferInstanceAs
    (Decidable (¬ IsBlank c ∧ c ∉ ['"', '[', ']', '\x7b', '\x7d', ',', ':']))

theorem isPlain_alphanum {c : Char} (h : c.isAlphanum = true) : IsPlain c := by
  have hne : ∀ d : Char, d.isAlphanum = false → c ≠ d := fun d hd hcd => by
    rw [← hcd, h] at hd
    cases hd
  refine ⟨?_, ?_⟩
  · rintro (hc | hc | hc | hc) <;> exact hne _ (by decide) hc
  · simp only [List.mem_cons, List.not_mem_nil, or_false, not_or]
    exact ⟨hne _ (by decide), hne _ (by decide), hne _ (by decide), hne _ (by decide),
      hne _ (by decide), hne _ (by decide), hne _ (by decide)⟩

theorem isPlain_digit {c : Char} (h : c.isDigit = true) : IsPlain c :=
  isPlain_alphanum ((Bool.or_eq_true ..).mpr (.inr h))

theorem isPlain_words {word : List Char}
    (h : word ∈ [['n', 'u', 'l', 'l'], ['t', 'r', 'u', 'e'], ['f', 'a', 'l', 's', 'e']]) :
    ∀ c ∈ word, IsPlain c := by
  have hletters : word.all Char.isAlphanum = true := by
    simp only [List.mem_cons, List.not_mem_nil, or_false] at h
    rcases h with rfl | rfl | rfl <;> rfl
  exact fun c hc => isPlain_alphanum (List.all_eq_true.mp hletters c hc)

theorem squeezed_plain (h : ∀ c ∈ cs, IsPlain c) :
    squeezed .outside (cs ++ rest) = cs ++ squeezed .outside rest := by
  induction cs with
  | nil => rfl
  | cons c cs ih =>
    rw [List.forall_mem_cons] at h
    have hquote : c ≠ '"' := fun hc => h.1.2 (by simp [hc])
    rw [List.cons_append, squeezed, if_neg fun hblank => h.1.1 hblank.2, Spot.after,
      if_neg hquote, ih h.2]
    rfl

theorem laidOut_plain (h : ∀ c ∈ cs, IsPlain c) :
    laidOut .outside false depth (cs ++ rest) = cs ++ laidOut .outside false depth rest := by
  induction cs with
  | nil => rfl
  | cons c cs ih =>
    rw [List.forall_mem_cons] at h
    obtain ⟨⟨-, hsigns⟩, hcs⟩ := h
    simp only [List.mem_cons, List.not_mem_nil, or_false, not_or] at hsigns
    obtain ⟨hquote, hopen, hclose, hopen', hclose', hcomma, hcolon⟩ := hsigns
    rw [List.cons_append, laidOut, if_neg (not_or.mpr ⟨hclose, hclose'⟩),
      if_neg Bool.false_ne_true, if_neg (not_or.mpr ⟨hopen, hopen'⟩), if_neg hcomma,
      if_neg hcolon, Spot.after, if_neg hquote, ih hcs]
    rfl

theorem isPlain_intChars (n : ℤ) : ∀ c ∈ Decimal.intChars n, IsPlain c := by
  have hdigits : ∀ c ∈ Decimal.natChars n.natAbs, IsPlain c := fun _ hc =>
    isPlain_digit (Decimal.isDigit_natChars hc)
  unfold Decimal.intChars
  split
  · exact List.forall_mem_cons.mpr ⟨by decide, hdigits⟩
  · exact hdigits

theorem isPlain_spelling {s : Spelling} (hs : s.Proper) : ∀ c ∈ s.chars, IsPlain c := by
  have hexponent : ∀ c ∈ s.exponentTail, IsPlain c := by
    unfold Spelling.exponentTail
    split
    · exact List.forall_mem_nil _
    · exact List.forall_mem_cons.mpr ⟨by decide, isPlain_intChars _⟩
  have hfraction : ∀ c ∈ s.fractionTail, IsPlain c := by
    unfold Spelling.fractionTail
    split
    · exact hexponent
    · exact List.forall_mem_cons.mpr ⟨by decide, List.forall_mem_append.mpr
        ⟨fun c hc => isPlain_digit (hs.fraction c hc), hexponent⟩⟩
  have hmagnitude : ∀ c ∈ s.whole ++ s.fractionTail, IsPlain c :=
    List.forall_mem_append.mpr ⟨fun c hc => isPlain_digit (hs.whole c hc), hfraction⟩
  unfold Spelling.chars
  split
  · exact List.forall_mem_cons.mpr ⟨by decide, hmagnitude⟩
  · exact hmagnitude

/-- What is not finite is written as a word. -/
theorem chars_of_not_finite {x : Float} (hx : x.isFinite = false) :
    Decimal.Format.document.chars x = ['n', 'u', 'l', 'l'] := by
  unfold Decimal.Format.chars
  cases hparts : Decimal.parts x with
  | nan => rfl
  | infinite n => rfl
  | finite n m q =>
    rw [Decimal.isFinite_iff.mpr ⟨n, m, q, hparts⟩] at hx
    cases hx

theorem isPlain_document (x : Float) : ∀ c ∈ Decimal.Format.document.chars x, IsPlain c := by
  cases hx : x.isFinite with
  | true =>
    obtain ⟨s, hs, -, hchars, -⟩ := Decimal.exists_spelling_document hx
    exact hchars ▸ isPlain_spelling hs
  | false =>
    rw [chars_of_not_finite hx]
    exact isPlain_words (by simp)

/-! ## The first character of a value -/

/-- The first character of a value. -/
def OpensValue (c : Char) : Prop := ¬ IsBlank c ∧ c ≠ ']' ∧ c ≠ '\x7d'

theorem opensValue_digit {c : Char} (h : c.isDigit = true) : OpensValue c := by
  obtain ⟨hblank, hsigns⟩ := isPlain_digit h
  exact ⟨hblank, fun hc => hsigns (by simp [hc]), fun hc => hsigns (by simp [hc])⟩

theorem opensValue_sign {c : Char} (hc : c ∈ ['n', 't', 'f', '"', '[', '\x7b', '-']) :
    OpensValue c := by
  refine ⟨?_, ?_, ?_⟩
  · rintro (rfl | rfl | rfl | rfl) <;> exact absurd hc (by decide)
  · rintro rfl
    exact absurd hc (by decide)
  · rintro rfl
    exact absurd hc (by decide)

theorem exists_spelling_chars_eq_cons {s : Spelling} (hs : s.Proper) :
    ∃ c cs, s.chars = c :: cs ∧ OpensValue c := by
  obtain ⟨c, digits, hwhole⟩ : ∃ c digits, s.whole = c :: digits := by
    rcases hs.leading with h | ⟨c, digits, h, -⟩
    · exact ⟨_, _, h⟩
    · exact ⟨_, _, h⟩
  unfold Spelling.chars
  split
  · exact ⟨_, _, rfl, opensValue_sign (by simp)⟩
  · rw [hwhole]
    exact ⟨_, _, rfl, opensValue_digit (hs.whole c (hwhole ▸ List.mem_cons_self))⟩

theorem exists_intChars_eq_cons (n : ℤ) :
    ∃ c cs, Decimal.intChars n = c :: cs ∧ OpensValue c := by
  unfold Decimal.intChars
  split
  · exact ⟨_, _, rfl, opensValue_sign (by simp)⟩
  · rcases hdigits : Decimal.natChars n.natAbs with _ | ⟨c, digits⟩
    · exact absurd hdigits Nat.toDigits_ne_nil
    · exact ⟨c, digits, rfl,
        opensValue_digit (Decimal.isDigit_natChars (hdigits ▸ List.mem_cons_self))⟩

/-- A value begins with a sign that is neither blank nor the end of an array or object. -/
theorem exists_chars_eq_cons (layout : Layout) (depth : ℕ) (j : Json) :
    ∃ c cs, chars layout depth j = c :: cs ∧ OpensValue c := by
  cases j with
  | null => exact ⟨_, _, rfl, opensValue_sign (by simp)⟩
  | boolean b => cases b <;> exact ⟨_, _, rfl, opensValue_sign (by simp)⟩
  | integer n => exact exists_intChars_eq_cons n
  | real x =>
    rw [chars]
    cases hx : x.isFinite with
    | true =>
      obtain ⟨s, hs, -, hchars, -⟩ := Decimal.exists_spelling_document hx
      exact hchars ▸ exists_spelling_chars_eq_cons hs
    | false => exact ⟨_, _, chars_of_not_finite hx, opensValue_sign (by simp)⟩
  | text s => exact ⟨_, _, rfl, opensValue_sign (by simp)⟩
  | array items => cases items <;> exact ⟨_, _, rfl, opensValue_sign (by simp)⟩
  | object members => rcases members with _ | ⟨⟨name, value⟩, rest⟩ <;>
      exact ⟨_, _, rfl, opensValue_sign (by simp)⟩

theorem length_chars_pos (layout : Layout) (depth : ℕ) (j : Json) :
    0 < (chars layout depth j).length := by
  obtain ⟨c, cs, hcs, -⟩ := exists_chars_eq_cons layout depth j
  rw [hcs]
  exact Nat.succ_pos _

/-! ## Signs -/

theorem squeezed_sign {c : Char} (hblank : ¬ IsBlank c) (hquote : c ≠ '"') :
    squeezed .outside (c :: rest) = c :: squeezed .outside rest := by
  rw [squeezed, if_neg fun h => hblank h.2, Spot.after, if_neg hquote]

theorem squeezed_blanks (h : ∀ c ∈ cs, IsBlank c) :
    squeezed .outside (cs ++ rest) = squeezed .outside rest := by
  induction cs with
  | nil => rfl
  | cons c cs ih =>
    rw [List.forall_mem_cons] at h
    rw [List.cons_append, squeezed, if_pos ⟨rfl, h.1⟩, ih h.2]

theorem laidOut_open {c : Char} (hc : c = '[' ∨ c = '\x7b') :
    laidOut .outside false depth (c :: rest) = c :: laidOut .outside true (depth + 1) rest := by
  rw [laidOut]
  rcases hc with rfl | rfl <;> rfl

/-- Something stands behind the bracket. -/
theorem laidOut_opened (h : ∃ c cs', cs = c :: cs' ∧ OpensValue c) :
    laidOut .outside true depth (cs ++ rest) =
      lineBreak depth ++ laidOut .outside false depth (cs ++ rest) := by
  obtain ⟨c, cs', rfl, -, hclose, hclose'⟩ := h
  have hnot : ¬ (c = ']' ∨ c = '\x7d') := not_or.mpr ⟨hclose, hclose'⟩
  rw [List.cons_append, laidOut, laidOut, if_neg hnot, if_neg hnot, if_pos rfl,
    if_neg Bool.false_ne_true, List.nil_append]

/-- Nothing stands between the brackets. -/
theorem laidOut_empty {c : Char} (hc : c = ']' ∨ c = '\x7d') :
    laidOut .outside true (depth + 1) (c :: rest) = c :: laidOut .outside false depth rest := by
  rw [laidOut, if_pos hc]
  rfl

theorem laidOut_close {c : Char} (hc : c = ']' ∨ c = '\x7d') :
    laidOut .outside false (depth + 1) (c :: rest) =
      lineBreak depth ++ c :: laidOut .outside false depth rest := by
  rw [laidOut, if_pos hc]
  rfl

theorem laidOut_comma :
    laidOut .outside false depth (',' :: rest) =
      ',' :: (lineBreak depth ++ laidOut .outside false depth rest) := by
  rw [laidOut]
  rfl

theorem laidOut_colon :
    laidOut .outside false depth (':' :: rest) =
      ':' :: ' ' :: laidOut .outside false depth rest := by
  rw [laidOut]
  rfl

/-! ## Values -/

variable (layout : Layout)

mutual

/-- Without its blanks, a value is the compact one. -/
theorem squeezed_chars (depth : ℕ) (rest : List Char) : ∀ j : Json,
    squeezed .outside (chars layout depth j ++ rest) =
      chars .compact depth j ++ squeezed .outside rest
  | .null => squeezed_plain (isPlain_words (by simp [chars]))
  | .boolean true => squeezed_plain (isPlain_words (by simp [chars]))
  | .boolean false => squeezed_plain (isPlain_words (by simp [chars]))
  | .integer n => squeezed_plain (isPlain_intChars n)
  | .real x => squeezed_plain (isPlain_document x)
  | .text s => squeezed_textChars s
  | .array [] => by
    rw [chars, chars, List.cons_append, squeezed_sign (by decide) (by decide), List.cons_append,
      squeezed_sign (by decide) (by decide)]
    rfl
  | .array (item :: items) => by
    rw [chars, chars]
    simp only [List.cons_append, List.append_assoc, List.nil_append]
    rw [squeezed_sign (by decide) (by decide),
      squeezed_blanks (isBlank_breakChars layout (depth + 1)), squeezed_chars (depth + 1) _ item,
      squeezed_itemChars (depth + 1) _ items, squeezed_blanks (isBlank_breakChars layout depth),
      squeezed_sign (by decide) (by decide)]
    rfl
  | .object [] => by
    rw [chars, chars, List.cons_append, squeezed_sign (by decide) (by decide), List.cons_append,
      squeezed_sign (by decide) (by decide)]
    rfl
  | .object ((name, value) :: members) => by
    rw [chars, chars]
    simp only [List.cons_append, List.append_assoc, List.nil_append]
    rw [squeezed_sign (by decide) (by decide),
      squeezed_blanks (isBlank_breakChars layout (depth + 1)), squeezed_textChars,
      squeezed_sign (by decide) (by decide), squeezed_blanks (isBlank_colonBlank layout),
      squeezed_chars (depth + 1) _ value, squeezed_memberChars (depth + 1) _ members,
      squeezed_blanks (isBlank_breakChars layout depth), squeezed_sign (by decide) (by decide)]
    rfl

theorem squeezed_itemChars (depth : ℕ) (rest : List Char) : ∀ items : List Json,
    squeezed .outside (itemChars layout depth items ++ rest) =
      itemChars .compact depth items ++ squeezed .outside rest
  | [] => rfl
  | item :: items => by
    rw [itemChars, itemChars]
    simp only [List.cons_append, List.append_assoc]
    rw [squeezed_sign (by decide) (by decide), squeezed_blanks (isBlank_breakChars layout depth),
      squeezed_chars depth _ item, squeezed_itemChars depth _ items]
    rfl

theorem squeezed_memberChars (depth : ℕ) (rest : List Char) : ∀ members : List (String × Json),
    squeezed .outside (memberChars layout depth members ++ rest) =
      memberChars .compact depth members ++ squeezed .outside rest
  | [] => rfl
  | (name, value) :: members => by
    rw [memberChars, memberChars]
    simp only [List.cons_append, List.append_assoc]
    rw [squeezed_sign (by decide) (by decide), squeezed_blanks (isBlank_breakChars layout depth),
      squeezed_textChars, squeezed_sign (by decide) (by decide),
      squeezed_blanks (isBlank_colonBlank layout), squeezed_chars depth _ value,
      squeezed_memberChars depth _ members]
    rfl

end

mutual

/-- With the blanks put in, the compact value is the indented one. -/
theorem laidOut_chars (depth : ℕ) (rest : List Char) : ∀ j : Json,
    laidOut .outside false depth (chars .compact depth j ++ rest) =
      chars .indented depth j ++ laidOut .outside false depth rest
  | .null => laidOut_plain (isPlain_words (by simp [chars]))
  | .boolean true => laidOut_plain (isPlain_words (by simp [chars]))
  | .boolean false => laidOut_plain (isPlain_words (by simp [chars]))
  | .integer n => laidOut_plain (isPlain_intChars n)
  | .real x => laidOut_plain (isPlain_document x)
  | .text s => laidOut_textChars s
  | .array [] => by
    rw [chars, chars, List.cons_append, laidOut_open (.inl rfl), List.cons_append,
      laidOut_empty (.inl rfl)]
    rfl
  | .array (item :: items) => by
    have hopens := exists_chars_eq_cons .compact (depth + 1) item
    rw [chars, chars]
    simp only [Layout.breakChars, List.cons_append, List.append_assoc, List.nil_append]
    rw [laidOut_open (.inl rfl), laidOut_opened hopens, laidOut_chars (depth + 1) _ item,
      laidOut_itemChars (depth + 1) _ items, laidOut_close (.inl rfl)]
    rfl
  | .object [] => by
    rw [chars, chars, List.cons_append, laidOut_open (.inr rfl), List.cons_append,
      laidOut_empty (.inr rfl)]
    rfl
  | .object ((name, value) :: members) => by
    have hopens : ∃ c cs, textChars name = c :: cs ∧ OpensValue c :=
      ⟨_, _, rfl, opensValue_sign (by simp)⟩
    rw [chars, chars]
    simp only [Layout.breakChars, Layout.colonBlank, List.cons_append, List.append_assoc,
      List.nil_append]
    rw [laidOut_open (.inr rfl), laidOut_opened hopens, laidOut_textChars, laidOut_colon,
      laidOut_chars (depth + 1) _ value, laidOut_memberChars (depth + 1) _ members,
      laidOut_close (.inr rfl)]
    rfl

theorem laidOut_itemChars (depth : ℕ) (rest : List Char) : ∀ items : List Json,
    laidOut .outside false depth (itemChars .compact depth items ++ rest) =
      itemChars .indented depth items ++ laidOut .outside false depth rest
  | [] => rfl
  | item :: items => by
    rw [itemChars, itemChars]
    simp only [Layout.breakChars, List.cons_append, List.append_assoc, List.nil_append]
    rw [laidOut_comma, laidOut_chars depth _ item, laidOut_itemChars depth _ items]
    rfl

theorem laidOut_memberChars (depth : ℕ) (rest : List Char) : ∀ members : List (String × Json),
    laidOut .outside false depth (memberChars .compact depth members ++ rest) =
      memberChars .indented depth members ++ laidOut .outside false depth rest
  | [] => rfl
  | (name, value) :: members => by
    rw [memberChars, memberChars]
    simp only [Layout.breakChars, Layout.colonBlank, List.cons_append, List.append_assoc,
      List.nil_append]
    rw [laidOut_comma, laidOut_textChars, laidOut_colon, laidOut_chars depth _ value,
      laidOut_memberChars depth _ members]
    rfl

end

/-- **Without its blanks the text of a value is the compact one.** -/
theorem squeezed_write (j : Json) :
    squeezed .outside (j.write layout).toList = (j.write .compact).toList := by
  have h := squeezed_chars layout 0 [] j
  rw [toList_write, toList_write]
  simpa [squeezed] using h

theorem isCompact_write (j : Json) : IsCompact (j.write .compact) := squeezed_write .compact j

/-- **The indented text of a value has the blanks of the indented layout, and no others.** -/
theorem isIndented_write (j : Json) : IsIndented (j.write .indented) := by
  have h := laidOut_chars 0 [] j
  unfold IsIndented
  rw [squeezed_write, toList_write, toList_write]
  simpa [laidOut] using h

/-- Blanks in a string count for nothing, and empty brackets stay together. -/
example : IsCompact "[\"a b\",[],1]" ∧ IsIndented "[\n  \"a b\",\n  [],\n  1\n]" := by
  decide +kernel

end BlockSteps.Json

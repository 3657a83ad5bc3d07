import Mathlib
import BlockSteps.Proofs.Json.RoundTrip

/-!
# Which drafts are those of texts

The draft of a text that is JSON, and nothing but a value, has no fault in it: every array and every
object comes to its end.  The other way round, whatever draft has no fault is that of some text.  So
a statement about such drafts is one about texts, and none of them is left out.

**Main statement.**  `exists_ofText_iff`.
-/

namespace BlockSteps.Json

open Decimal (Spelling)

/-! ## Whole drafts -/

/-- Whether a numeral is spelled as texts spell numbers. -/
def Numeral.proper (n : Numeral) : Bool :=
  n.whole.all Char.isDigit && n.fraction.all Char.isDigit &&
    (n.whole == ['0'] || n.whole.head?.any (· != '0'))

theorem Numeral.proper_iff {n : Numeral} : n.proper = true ↔ Spelling.Proper n := by
  have hleading : (n.whole == ['0'] || n.whole.head?.any (· != '0')) = true ↔
      n.whole = ['0'] ∨ ∃ c rest, n.whole = c :: rest ∧ c ≠ '0' := by
    cases n.whole with
    | nil => simp
    | cons c rest => simp
  unfold Numeral.proper
  rw [Bool.and_eq_true, Bool.and_eq_true, List.all_eq_true, List.all_eq_true, hleading]
  exact ⟨fun ⟨⟨hwhole, hfraction⟩, hfirst⟩ => ⟨hwhole, hfirst, hfraction⟩,
    fun h => ⟨⟨h.whole, h.fraction⟩, h.leading⟩⟩

mutual

/-- The draft is that of a value: no fault stands in it. -/
def Draft.whole : Draft → Bool
  | .null => true
  | .boolean _ => true
  | .number n => n.proper
  | .text _ => true
  | .array items stop => stop.isNone && wholeItems items
  | .object members stop => stop.isNone && wholeMembers members
  | .fault _ => false

/-- No fault stands in the items. -/
def wholeItems : List Draft → Bool
  | [] => true
  | item :: rest => item.whole && wholeItems rest

/-- No fault stands in the members. -/
def wholeMembers : List (Option String × Draft) → Bool
  | [] => true
  | (_, value) :: rest => value.whole && wholeMembers rest

end

theorem wholeMembers_iff {members : List (Option String × Draft)} :
    wholeMembers members = true ↔ ∀ m ∈ members, m.2.whole = true := by
  induction members with
  | nil => simp [wholeMembers]
  | cons m members ih => simp [wholeMembers, ih]

/-! ## What is scanned to its end is whole -/

variable {d : Draft} {cs rest : List Char}

theorem whole_of_scanWord {word : List Char} {value : Draft} (hvalue : value.whole = true)
    (h : scanWord word value cs = (d, some rest)) : d.whole = true := by
  unfold scanWord at h
  split at h
  · cases h
    exact hvalue
  · cases h

theorem whole_of_scanExponent {negative : Bool} {whole fraction : List Char}
    (hproper : ∀ e, Spelling.Proper ⟨negative, whole, fraction, e⟩)
    (h : scanExponent negative whole fraction cs = (d, some rest)) : d.whole = true := by
  unfold scanExponent at h
  split at h
  · split at h
    · dsimp only at h
      split at h
      · cases h
      · cases h
        exact Numeral.proper_iff.mpr (hproper _)
    · cases h
      exact Numeral.proper_iff.mpr (hproper _)
  · cases h
    exact Numeral.proper_iff.mpr (hproper _)

theorem isDigit_of_mem_digitRun {cs : List Char} :
    ∀ c ∈ (Decimal.digitRun cs).1, c.isDigit = true := by
  unfold Decimal.digitRun
  rw [List.span_eq_takeWhile_dropWhile]
  exact fun c hc => List.mem_takeWhile_imp hc

theorem whole_of_scanFraction {negative : Bool} {whole : List Char}
    (hwhole : ∀ c ∈ whole, c.isDigit = true)
    (hleading : whole = ['0'] ∨ ∃ c rest, whole = c :: rest ∧ c ≠ '0')
    (h : scanFraction negative whole cs = (d, some rest)) : d.whole = true := by
  unfold scanFraction at h
  split at h
  · dsimp only at h
    split at h
    · cases h
    · exact whole_of_scanExponent (fun _ => ⟨hwhole, hleading, isDigit_of_mem_digitRun⟩) h
  · exact whole_of_scanExponent (fun _ => ⟨hwhole, hleading, List.forall_mem_nil _⟩) h

/-- Digits begin as the text does. -/
theorem head?_digitRun {cs : List Char} (h : (Decimal.digitRun cs).1.isEmpty = false) :
    ∃ c digits rest, cs = c :: rest ∧ (Decimal.digitRun cs).1 = c :: digits := by
  unfold Decimal.digitRun at h ⊢
  rw [List.span_eq_takeWhile_dropWhile] at h ⊢
  cases cs with
  | nil => cases h
  | cons c rest =>
    cases hc : c.isDigit with
    | true => exact ⟨c, rest.takeWhile Char.isDigit, rest, rfl, List.takeWhile_cons_of_pos hc⟩
    | false =>
      rw [List.takeWhile_cons_of_neg (by rw [hc]; exact Bool.false_ne_true)] at h
      cases h

theorem whole_of_scanMagnitude {negative : Bool}
    (h : scanMagnitude negative cs = (d, some rest)) : d.whole = true := by
  have hzero : ∀ c ∈ ['0'], c.isDigit = true := List.forall_mem_singleton.mpr rfl
  unfold scanMagnitude at h
  split at h
  · split at h
    · split at h
      · cases h
      · exact whole_of_scanFraction hzero (.inl rfl) h
    · exact whole_of_scanFraction hzero (.inl rfl) h
  · rename_i hnot
    dsimp only at h
    split at h
    · cases h
    · rename_i hempty
      obtain ⟨c, digits, after, rfl, hdigits⟩ := head?_digitRun (Bool.not_eq_true _ ▸ hempty)
      refine whole_of_scanFraction isDigit_of_mem_digitRun (.inr ⟨c, digits, hdigits, ?_⟩) h
      rintro rfl
      exact hnot after rfl

/-- Whatever leaves a rest of the text is whole, scanned within the bound. -/
structure ScansWhole (bound : ℕ) : Prop where
  /-- Values are. -/
  value : ∀ {cs rest d}, scanValue bound cs = (d, some rest) → d.whole = true
  /-- So are the items of an array, and nothing stops them. -/
  items : ∀ {first cs rest items stop}, scanItems bound first cs = (items, stop, some rest) →
    stop = none ∧ wholeItems items = true
  /-- So are the members of an object, and nothing stops them. -/
  members : ∀ {first cs rest members stop},
    scanMembers bound first cs = (members, stop, some rest) →
      stop = none ∧ wholeMembers members = true

namespace ScansWhole

variable {bound : ℕ} (ih : ScansWhole bound)
include ih

theorem value_succ {cs rest : List Char} {d : Draft}
    (h : scanValue (bound + 1) cs = (d, some rest)) : d.whole = true := by
  rw [scanValue] at h
  split at h
  · cases h
  · rename_i c cs _
    split_ifs at h
    · rcases hscan : scanMembers bound true cs with ⟨members, stop, left⟩
      rw [hscan] at h
      cases h
      obtain ⟨rfl, hwhole⟩ := ih.members hscan
      exact hwhole
    · rcases hscan : scanItems bound true cs with ⟨items, stop, left⟩
      rw [hscan] at h
      cases h
      obtain ⟨rfl, hwhole⟩ := ih.items hscan
      exact hwhole
    · split at h
      · cases h
        rfl
      · cases h
    · exact whole_of_scanWord rfl h
    · exact whole_of_scanWord rfl h
    · exact whole_of_scanWord rfl h
    · exact whole_of_scanMagnitude h
    · exact whole_of_scanMagnitude h
    · cases h

theorem items_succ {first : Bool} {cs rest : List Char} {items : List Draft} {stop : Option Fault}
    (h : scanItems (bound + 1) first cs = (items, stop, some rest)) :
    stop = none ∧ wholeItems items = true := by
  rw [scanItems] at h
  split at h
  · cases h
  split at h
  · cases h
    exact ⟨rfl, rfl⟩
  split at h
  · rcases hitem : scanValue bound _ with ⟨item, _ | after⟩
    · rw [hitem] at h
      cases h
    rw [hitem] at h
    dsimp only at h
    rcases hscan : scanItems bound false after with ⟨items, stop, left⟩
    rw [hscan] at h
    cases h
    obtain ⟨rfl, hwhole⟩ := ih.items hscan
    exact ⟨rfl, (Bool.and_eq_true ..).mpr ⟨ih.value hitem, hwhole⟩⟩
  · cases h

theorem members_succ {first : Bool} {cs rest : List Char} {members : List (Option String × Draft)}
    {stop : Option Fault} (h : scanMembers (bound + 1) first cs = (members, stop, some rest)) :
    stop = none ∧ wholeMembers members = true := by
  rw [scanMembers] at h
  split at h
  · cases h
  split at h
  · cases h
    exact ⟨rfl, rfl⟩
  split at h
  · dsimp only at h
    split at h
    · cases h
    split at h
    · split at h
      · cases h
      split at h
      · cases h
      split at h
      · rcases hscan : scanValue bound _ with ⟨value, _ | after⟩
        · rw [hscan] at h
          cases h
        rw [hscan] at h
        dsimp only at h
        rcases hrest : scanMembers bound false after with ⟨members, stop, left⟩
        rw [hrest] at h
        cases h
        obtain ⟨rfl, hwhole⟩ := ih.members hrest
        exact ⟨rfl, (Bool.and_eq_true ..).mpr ⟨ih.value hscan, hwhole⟩⟩
      · cases h
    · cases h
  · cases h

end ScansWhole

/-- By induction on the bound: each level is scanned by those below it. -/
theorem scansWhole (bound : ℕ) : ScansWhole bound := by
  induction bound with
  | zero => exact ⟨nofun, nofun, nofun⟩
  | succ bound ih => exact ⟨ih.value_succ, ih.items_succ, ih.members_succ⟩

/-- The draft of a text is whole if only blanks follow it. -/
theorem whole_of_ofText {text : String} (h : Draft.ofText text = (d, true)) : d.whole = true := by
  unfold Draft.ofText at h
  dsimp only at h
  split at h
  · rename_i hscan
    obtain rfl := congrArg Prod.fst h
    exact (scansWhole _).value hscan
  · cases h

/-! ## Every whole draft is scanned from some text -/

/-- The characters are scanned as the draft, whatever ends a number stands behind them.  Two calls
of the scanner are enough for each of them. -/
structure Writes (cs : List Char) (d : Draft) : Prop where
  /-- They begin like a value. -/
  opens : ∃ c rest, cs = c :: rest ∧ OpensValue c
  /-- They are scanned. -/
  scan : ∀ rest bound, EndsNumber rest → 2 * cs.length ≤ bound →
    scanValue bound (cs ++ rest) = (d, some rest)

/-- The characters are scanned as items behind the first one. -/
structure WritesItems (cs : List Char) (items : List Draft) : Prop where
  /-- No number goes on with them. -/
  ends : ∀ rest, EndsNumber (cs ++ ']' :: rest)
  /-- They are scanned. -/
  scan : ∀ rest bound, 2 * cs.length < bound →
    scanItems bound false (cs ++ ']' :: rest) = (items, none, some rest)

/-- The characters are scanned as members behind the first one. -/
structure WritesMembers (cs : List Char) (members : List (Option String × Draft)) : Prop where
  /-- No number goes on with them. -/
  ends : ∀ rest, EndsNumber (cs ++ '\x7d' :: rest)
  /-- They are scanned. -/
  scan : ∀ rest bound, 2 * cs.length < bound →
    scanMembers bound false (cs ++ '\x7d' :: rest) = (members, none, some rest)

/-- The characters of a string behind its opening quotation mark; half a pair of surrogates where it
is no text. -/
def quotedChars : Option String → List Char
  | some s => s.toList.flatMap escapedChar ++ ['"']
  | none => ['\\', 'u', 'd', '8', '0', '0', '"']

theorem scanText_quotedChars (s : Option String) (rest : List Char) :
    scanText (quotedChars s ++ rest) = .ok (s, rest) := by
  cases s with
  | some s => exact scanText_name s rest
  | none => rfl

theorem isBlank_nil : ∀ c ∈ ([] : List Char), IsBlank c :=
  fun _ h => absurd h List.not_mem_nil

/-- What is scanned with one call does not need two for each character. -/
theorem writes_of_scan {cs : List Char} {d : Draft}
    (hopens : ∃ c rest, cs = c :: rest ∧ OpensValue c)
    (hscan : ∀ rest bound, EndsNumber rest → scanValue (bound + 1) (cs ++ rest) = (d, some rest)) :
    Writes cs d := by
  refine ⟨hopens, fun rest bound hrest hbound => ?_⟩
  obtain ⟨c, cs, rfl, -⟩ := hopens
  rw [List.length_cons] at hbound
  obtain ⟨bound, rfl⟩ : ∃ b, bound = b + 1 := ⟨bound - 1, by omega⟩
  exact hscan rest bound hrest

theorem writes_null : Writes ['n', 'u', 'l', 'l'] .null :=
  writes_of_scan ⟨_, _, rfl, opensValue_sign (by simp)⟩ fun rest bound _ => by rw [scanValue]; rfl

theorem writes_true : Writes ['t', 'r', 'u', 'e'] (.boolean true) :=
  writes_of_scan ⟨_, _, rfl, opensValue_sign (by simp)⟩ fun rest bound _ => by rw [scanValue]; rfl

theorem writes_false : Writes ['f', 'a', 'l', 's', 'e'] (.boolean false) :=
  writes_of_scan ⟨_, _, rfl, opensValue_sign (by simp)⟩ fun rest bound _ => by rw [scanValue]; rfl

theorem writes_number {n : Numeral} (h : Spelling.Proper n) : Writes n.chars (.number n) :=
  writes_of_scan (exists_spelling_chars_eq_cons h) fun _ bound hrest =>
    scanValue_spelling h hrest bound

theorem writes_text (s : Option String) : Writes ('"' :: quotedChars s) (.text s) := by
  refine writes_of_scan ⟨_, _, rfl, opensValue_sign (by simp)⟩ fun rest bound _ => ?_
  rw [List.cons_append, scanValue,
    skipBlanks_cons (by rintro (h | h | h | h) <;> exact absurd h (by decide))]
  dsimp only
  rw [if_neg (by decide), if_neg (by decide), if_pos rfl, scanText_quotedChars]

/-! ### Arrays -/

theorem writesItems_nil : WritesItems [] [] := by
  refine ⟨fun rest => endsNumber_break .compact 0 rest (.inr (.inl rfl)),
    fun rest bound hbound => ?_⟩
  obtain ⟨bound, rfl⟩ : ∃ b, bound = b + 1 := ⟨bound - 1, by omega⟩
  exact scanItems_end rest isBlank_nil bound false

theorem writesItems_cons {cs cs' : List Char} {item : Draft} {items : List Draft}
    (hitem : Writes cs item) (hitems : WritesItems cs' items) :
    WritesItems (',' :: (cs ++ cs')) (item :: items) := by
  refine ⟨fun rest => endsNumber_break .compact 0 _ (.inl rfl), fun rest bound hbound => ?_⟩
  simp only [List.length_cons, List.length_append] at hbound
  obtain ⟨bound, rfl⟩ : ∃ b, bound = b + 1 := ⟨bound - 1, by omega⟩
  have hscan := hitem.scan _ bound (hitems.ends rest) (by omega)
  rw [List.cons_append, List.append_assoc, scanItems_next hscan, hitems.scan rest bound (by omega)]

theorem writes_array_nil : Writes ['[', ']'] (.array [] none) := by
  refine ⟨⟨_, _, rfl, opensValue_sign (by simp)⟩, fun rest bound _ hbound => ?_⟩
  simp only [List.length_cons, List.length_nil] at hbound
  obtain ⟨bound, rfl⟩ : ∃ b, bound = b + 2 := ⟨bound - 2, by omega⟩
  have hend := scanItems_end rest isBlank_nil bound true
  rw [List.nil_append] at hend
  rw [List.cons_append, scanValue_bracket, List.cons_append, List.nil_append, hend]

theorem writes_array_cons {cs cs' : List Char} {item : Draft} {items : List Draft}
    (hitem : Writes cs item) (hitems : WritesItems cs' items) :
    Writes ('[' :: (cs ++ (cs' ++ [']']))) (.array (item :: items) none) := by
  refine ⟨⟨_, _, rfl, opensValue_sign (by simp)⟩, fun rest bound _ hbound => ?_⟩
  simp only [List.length_cons, List.length_append, List.length_nil] at hbound
  obtain ⟨bound, rfl⟩ : ∃ b, bound = b + 2 := ⟨bound - 2, by omega⟩
  have hscan := hitem.scan _ bound (hitems.ends rest) (by omega)
  obtain ⟨c, cs, rfl, hopens⟩ := hitem.opens
  rw [List.cons_append] at hscan
  have hfirst := scanItems_first isBlank_nil hopens hscan
  rw [hitems.scan rest bound (by omega)] at hfirst
  rw [List.cons_append, scanValue_bracket]
  simp only [List.append_assoc, List.cons_append, List.nil_append] at hfirst ⊢
  rw [hfirst]

/-! ### Objects -/

theorem writesMembers_nil : WritesMembers [] [] := by
  refine ⟨fun rest => endsNumber_break .compact 0 rest (.inr (.inr rfl)),
    fun rest bound hbound => ?_⟩
  obtain ⟨bound, rfl⟩ : ∃ b, bound = b + 1 := ⟨bound - 1, by omega⟩
  exact scanMembers_end rest isBlank_nil bound false

theorem writesMembers_cons {cs cs' : List Char} (name : Option String) {value : Draft}
    {members : List (Option String × Draft)} (hvalue : Writes cs value)
    (hmembers : WritesMembers cs' members) :
    WritesMembers (',' :: '"' :: (quotedChars name ++ (':' :: (cs ++ cs'))))
      ((name, value) :: members) := by
  refine ⟨fun rest => endsNumber_break .compact 0 _ (.inl rfl), fun rest bound hbound => ?_⟩
  simp only [List.length_cons, List.length_append] at hbound
  obtain ⟨bound, rfl⟩ : ∃ b, bound = b + 1 := ⟨bound - 1, by omega⟩
  have hscan := hvalue.scan _ bound (hmembers.ends rest) (by omega)
  have hmember := scanMembers_member (scanText_quotedChars name) isBlank_nil false hscan
  rw [hmembers.scan rest bound (by omega), if_neg Bool.false_ne_true] at hmember
  simpa only [List.cons_append, List.append_assoc, List.nil_append] using hmember

theorem writes_object_nil : Writes ['\x7b', '\x7d'] (.object [] none) := by
  refine ⟨⟨_, _, rfl, opensValue_sign (by simp)⟩, fun rest bound _ hbound => ?_⟩
  simp only [List.length_cons, List.length_nil] at hbound
  obtain ⟨bound, rfl⟩ : ∃ b, bound = b + 2 := ⟨bound - 2, by omega⟩
  have hend := scanMembers_end rest isBlank_nil bound true
  rw [List.nil_append] at hend
  rw [List.cons_append, scanValue_brace, List.cons_append, List.nil_append, hend]

theorem writes_object_cons {cs cs' : List Char} (name : Option String) {value : Draft}
    {members : List (Option String × Draft)} (hvalue : Writes cs value)
    (hmembers : WritesMembers cs' members) :
    Writes ('\x7b' :: '"' :: (quotedChars name ++ (':' :: (cs ++ (cs' ++ ['\x7d'])))))
      (.object ((name, value) :: members) none) := by
  refine ⟨⟨_, _, rfl, opensValue_sign (by simp)⟩, fun rest bound _ hbound => ?_⟩
  simp only [List.length_cons, List.length_append, List.length_nil] at hbound
  obtain ⟨bound, rfl⟩ : ∃ b, bound = b + 2 := ⟨bound - 2, by omega⟩
  have hscan := hvalue.scan _ bound (hmembers.ends rest) (by omega)
  have hfirst := scanMembers_member (scanText_quotedChars name) isBlank_nil true hscan
  rw [hmembers.scan rest bound (by omega), if_pos rfl] at hfirst
  rw [List.cons_append, scanValue_brace]
  simp only [List.append_assoc, List.cons_append, List.nil_append] at hfirst ⊢
  rw [hfirst]

/-! ### Every draft -/

mutual

/-- **Every whole draft is written in some way.** -/
theorem exists_writes : ∀ {d : Draft}, d.whole = true → ∃ cs, Writes cs d
  | .null, _ => ⟨_, writes_null⟩
  | .boolean true, _ => ⟨_, writes_true⟩
  | .boolean false, _ => ⟨_, writes_false⟩
  | .number _, h => ⟨_, writes_number (Numeral.proper_iff.mp h)⟩
  | .text s, _ => ⟨_, writes_text s⟩
  | .array [] none, _ => ⟨_, writes_array_nil⟩
  | .array (item :: items) none, h => by
    have hwhole : wholeItems (item :: items) = true := h
    obtain ⟨hitem, hitems⟩ := (Bool.and_eq_true ..).mp hwhole
    obtain ⟨cs, hcs⟩ := exists_writes hitem
    obtain ⟨cs', hcs'⟩ := exists_writesItems hitems
    exact ⟨_, writes_array_cons hcs hcs'⟩
  | .object [] none, _ => ⟨_, writes_object_nil⟩
  | .object ((name, value) :: members) none, h => by
    have hwhole : wholeMembers ((name, value) :: members) = true := h
    obtain ⟨hvalue, hmembers⟩ := (Bool.and_eq_true ..).mp hwhole
    obtain ⟨cs, hcs⟩ := exists_writes hvalue
    obtain ⟨cs', hcs'⟩ := exists_writesMembers hmembers
    exact ⟨_, writes_object_cons name hcs hcs'⟩

theorem exists_writesItems : ∀ {items : List Draft}, wholeItems items = true →
    ∃ cs, WritesItems cs items
  | [], _ => ⟨_, writesItems_nil⟩
  | item :: items, h => by
    obtain ⟨hitem, hitems⟩ := (Bool.and_eq_true ..).mp h
    obtain ⟨cs, hcs⟩ := exists_writes hitem
    obtain ⟨cs', hcs'⟩ := exists_writesItems hitems
    exact ⟨_, writesItems_cons hcs hcs'⟩

theorem exists_writesMembers : ∀ {members : List (Option String × Draft)},
    wholeMembers members = true → ∃ cs, WritesMembers cs members
  | [], _ => ⟨_, writesMembers_nil⟩
  | (name, value) :: members, h => by
    obtain ⟨hvalue, hmembers⟩ := (Bool.and_eq_true ..).mp h
    obtain ⟨cs, hcs⟩ := exists_writes hvalue
    obtain ⟨cs', hcs'⟩ := exists_writesMembers hmembers
    exact ⟨_, writesMembers_cons name hcs hcs'⟩

end

/-- **The drafts of texts that are one value and nothing more are the whole ones.** -/
theorem exists_ofText_iff : (∃ text, Draft.ofText text = (d, true)) ↔ d.whole = true := by
  constructor
  · rintro ⟨text, h⟩
    exact whole_of_ofText h
  · intro h
    obtain ⟨cs, hcs⟩ := exists_writes h
    refine ⟨String.ofList cs, ?_⟩
    have hscan := hcs.scan [] (2 * cs.length + 2) nofun (by omega)
    rw [List.append_nil] at hscan
    rw [Draft.ofText, String.toList_ofList, hscan]
    rfl

end BlockSteps.Json

import Mathlib
import BlockSteps.Step.Basic
import BlockSteps.Proofs.Decimal.Spelling

/-!
# Reading the ids of copies

Where copies are numbered, the path of a copy is written behind the id of its block, a mark between
them, and nothing is escaped.  The id is any text, so it can have marks, points and digits in it,
and can itself look like the id of a copy.  Still the text can be taken apart in one way only: the
mark occurs in no path, so the last mark of the text is the one that was put there; points separate
the numbers, and occur in none; and a number has one form in digits.

This module has the reader that goes with this argument.  `copyOf?` cuts a text at its last mark,
splits what is behind it at the points, and reads the parts as numbers.  It reads exactly the texts
that are written for copies (`copyOf?_eq_some_iff`), each as the copy for which it is written.

**Main statement.**  `renderedId_indexed_eq_iff`: two copies have one id in a document with numbered
copies exactly if they are of one block and have one path.
-/

namespace BlockSteps

/-! ## Parts of a text -/

/-- A function that undoes another one member by member undoes it on lists. -/
theorem mapM_eq_some_iff_map {α β : Type} {f : α → Option β} {g : β → α}
    (h : ∀ a b, f a = some b ↔ a = g b) {as : List α} {bs : List β} :
    as.mapM f = some bs ↔ as = bs.map g := by
  induction as generalizing bs with
  | nil => cases bs <;> simp
  | cons a as ih =>
    rw [List.mapM_cons]
    constructor
    · intro hread
      obtain ⟨b, hb, hread⟩ := Option.bind_eq_some_iff.mp hread
      obtain ⟨rest, hrest, hread⟩ := Option.bind_eq_some_iff.mp hread
      obtain rfl := Option.some.inj hread
      rw [(h a b).mp hb, ih.mp hrest, List.map_cons]
    · intro hwritten
      cases bs with
      | nil => cases hwritten
      | cons b bs =>
        obtain ⟨ha, has⟩ := List.cons.inj hwritten
        rw [(h a b).mpr ha, ih.mpr has]
        rfl

/-- What is before the last mark of a list, and what is behind it. -/
def cutAtLast {α : Type} [DecidableEq α] (mark : α) : List α → Option (List α × List α)
  | [] => none
  | c :: cs =>
    match cutAtLast mark cs with
    | some (before, behind) => some (c :: before, behind)
    | none => if c = mark then some ([], cs) else none

section Cut

variable {α : Type} [DecidableEq α] {mark : α} {cs before behind : List α}

theorem cutAtLast_eq_none_iff : cutAtLast mark cs = none ↔ mark ∉ cs := by
  induction cs with
  | nil => simp [cutAtLast]
  | cons c cs ih =>
    rw [cutAtLast, List.mem_cons]
    cases hcut : cutAtLast mark cs with
    | some p =>
      have hmem : mark ∈ cs := by
        by_contra hnot
        cases hcut.symm.trans (ih.mpr hnot)
      simp [hmem]
    | none => simp [ih.mp hcut, eq_comm]

theorem cutAtLast_eq_some_iff :
    cutAtLast mark cs = some (before, behind) ↔ mark ∉ behind ∧ cs = before ++ mark :: behind := by
  constructor
  · intro h
    induction cs generalizing before with
    | nil => cases h
    | cons c cs ih =>
      rw [cutAtLast] at h
      cases hcut : cutAtLast mark cs with
      | some p =>
        rw [hcut] at h
        cases h
        obtain ⟨hnot, rfl⟩ := ih hcut
        exact ⟨hnot, rfl⟩
      | none =>
        rw [hcut] at h
        dsimp only at h
        split at h
        · rename_i hc
          cases h
          exact ⟨cutAtLast_eq_none_iff.mp hcut, by rw [hc, List.nil_append]⟩
        · cases h
  · rintro ⟨hnot, rfl⟩
    induction before with
    | nil => rw [List.nil_append, cutAtLast, cutAtLast_eq_none_iff.mpr hnot, if_pos rfl]
    | cons c before ih => rw [List.cons_append, cutAtLast, ih]

end Cut

/-! ## Copies -/

namespace Step

/-- The number that is spelled in digits, without zeros before it. -/
def numberOf? (cs : List Char) : Option Nat :=
  let n := Decimal.digitsValue cs
  if Decimal.natChars n = cs then some n else none

/-- The path that is written with points between its numbers. -/
def pathOf? (cs : List Char) : Option (List Nat) := (cs.splitOn '.').mapM numberOf?

/-- The block and the path of the copy for which an id is written. -/
def copyOf? (text : String) : Option (String × List Nat) := do
  let (id, path) ← cutAtLast '#' text.toList
  let path ← pathOf? path
  pure (String.ofList id, path)

theorem numberOf?_eq_some_iff (cs : List Char) (n : Nat) :
    numberOf? cs = some n ↔ cs = Decimal.natChars n := by
  unfold numberOf?
  constructor
  · intro h
    dsimp only at h
    split at h
    · rename_i hcs
      rw [← Option.some.inj h, hcs]
    · cases h
  · rintro rfl
    dsimp only
    rw [Decimal.digitsValue_natChars, if_pos rfl]

theorem toList_dotted (path : List Nat) :
    (dotted path).toList = ['.'].intercalate (path.map Decimal.natChars) := by
  induction path with
  | nil => rfl
  | cons n rest ih =>
    cases rest with
    | nil => simp [dotted]
    | cons m rest => simp [dotted, ih]

/-- Points separate the numbers of a path and occur in none. -/
theorem splitOn_dotted {path : List Nat} (h : path ≠ []) :
    (dotted path).toList.splitOn '.' = path.map Decimal.natChars := by
  rw [toList_dotted]
  refine List.splitOn_intercalate '.' (fun number hnumber hpoint => ?_) (by simpa using h)
  obtain ⟨n, -, rfl⟩ := List.mem_map.mp hnumber
  exact absurd (Decimal.isDigit_natChars hpoint) (by decide)

theorem pathOf?_eq_some_iff {cs : List Char} {path : List Nat} :
    pathOf? cs = some path ↔ path ≠ [] ∧ cs = (dotted path).toList := by
  rw [pathOf?, mapM_eq_some_iff_map numberOf?_eq_some_iff]
  constructor
  · intro h
    refine ⟨?_, ?_⟩
    · rintro rfl
      exact List.splitOnP_ne_nil _ _ h
    · rw [toList_dotted, ← h, List.intercalate_splitOn]
  · rintro ⟨hpath, rfl⟩
    exact splitOn_dotted hpath

/-- A path is written with digits and points. -/
theorem isDigit_or_point_of_mem_dotted {path : List Nat} {c : Char}
    (h : c ∈ (dotted path).toList) : c.isDigit = true ∨ c = '.' := by
  induction path with
  | nil => simp [dotted] at h
  | cons n rest ih =>
    cases rest with
    | nil =>
      rw [dotted, String.toList_ofList] at h
      exact .inl (Decimal.isDigit_natChars h)
    | cons m rest =>
      rw [dotted, String.toList_append, String.toList_append, String.toList_ofList] at h
      rcases List.mem_append.mp h with h | h
      · rcases List.mem_append.mp h with h | h
        · exact .inl (Decimal.isDigit_natChars h)
        · exact .inr (by simpa using h)
      · exact ih h
      · simp

/-- The mark before a path does not occur in it. -/
theorem mark_not_mem_dotted (path : List Nat) : '#' ∉ (dotted path).toList := by
  intro h
  rcases isDigit_or_point_of_mem_dotted h with h | h
  · exact absurd h (by decide)
  · exact absurd h (by decide)

/-- The texts that are read are those that are written for copies. -/
theorem copyOf?_eq_some_iff {text id : String} {path : List Nat} :
    copyOf? text = some (id, path) ↔ path ≠ [] ∧ text = id ++ "#" ++ dotted path := by
  have hmarked : text = id ++ "#" ++ dotted path ↔
      text.toList = id.toList ++ '#' :: (dotted path).toList := by
    rw [← String.toList_inj]
    simp
  rw [hmarked]
  constructor
  · intro h
    obtain ⟨⟨before, behind⟩, hcut, h⟩ := Option.bind_eq_some_iff.mp h
    obtain ⟨read, hread, h⟩ := Option.bind_eq_some_iff.mp h
    obtain ⟨rfl, rfl⟩ := Prod.mk.inj (Option.some.inj h)
    obtain ⟨hpath, rfl⟩ := pathOf?_eq_some_iff.mp hread
    rw [String.toList_ofList]
    exact ⟨hpath, (cutAtLast_eq_some_iff.mp hcut).2⟩
  · rintro ⟨hpath, htext⟩
    have hcut := cutAtLast_eq_some_iff.mpr ⟨mark_not_mem_dotted path, htext⟩
    have hread := pathOf?_eq_some_iff.mpr ⟨hpath, rfl⟩
    simp [copyOf?, hcut, hread]

theorem renderedId_indexed {s : Step} (h : s.iteration ≠ []) :
    s.renderedId .indexed = s.id ++ "#" ++ dotted s.iteration := by
  rw [renderedId, if_neg]
  simpa using h

/-- The id of a copy is read as the copy. -/
theorem copyOf?_renderedId {s : Step} (h : s.iteration ≠ []) :
    copyOf? (s.renderedId .indexed) = some (s.id, s.iteration) :=
  copyOf?_eq_some_iff.mpr ⟨h, renderedId_indexed h⟩

/-- **The ids of copies can be read.**  Whatever the ids of blocks are and however deep the copies
lie: the id that is written for a copy is read as its block and its path.  So two copies have one id
exactly if they are of one block and have one path. -/
theorem renderedId_indexed_eq_iff {s t : Step} (hs : s.iteration ≠ []) (ht : t.iteration ≠ []) :
    copyOf? (s.renderedId .indexed) = some (s.id, s.iteration) ∧
      (s.renderedId .indexed = t.renderedId .indexed ↔
        s.id = t.id ∧ s.iteration = t.iteration) := by
  refine ⟨copyOf?_renderedId hs, fun h => ?_, fun ⟨hid, hpath⟩ => ?_⟩
  · have hread := copyOf?_renderedId hs
    rw [h, copyOf?_renderedId ht] at hread
    obtain ⟨hid, hpath⟩ := Prod.mk.inj (Option.some.inj hread)
    exact ⟨hid.symm, hpath.symm⟩
  · rw [renderedId_indexed hs, renderedId_indexed ht, hid, hpath]

/-- A copy of a wait. -/
def waitCopy (id : String) (path : List Nat) : Step :=
  { id := id, stepName := "Wait Time", mainFunc := "wait_time", iteration := path }

/-- A copy of a block whose id looks like that of a copy, and the copy that it looks like. -/
theorem renderedId_indexed_eq_iff_lookalike :
    copyOf? "w#0#1.20" = some ("w#0", [1, 20]) ∧
      (waitCopy "w#0" [1, 20]).renderedId .indexed ≠
        (waitCopy "w" [0, 1, 20]).renderedId .indexed := by
  obtain ⟨hread, hsame⟩ := renderedId_indexed_eq_iff (s := waitCopy "w#0" [1, 20])
    (t := waitCopy "w" [0, 1, 20]) (List.cons_ne_nil _ _) (List.cons_ne_nil _ _)
  exact ⟨hread, fun h => absurd (hsame.mp h).1 (by decide)⟩

end Step

end BlockSteps

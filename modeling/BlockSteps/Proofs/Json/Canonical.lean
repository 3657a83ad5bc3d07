import Mathlib
import BlockSteps.Proofs.Json.Reading
import BlockSteps.Proofs.Json.RoundTrip

/-!
# Values that were read

Not every value can come from a text.  A reader gives whole numbers of 64 bits, finite doubles, and
objects whose names increase strictly, since the later of two members of one name stays and the
members come in the order of their names.  Such values are `Canonical`, and they are exactly those
that a text keeps: whatever their layout, they are read back as they were, if the nearest double is
taken for the digits of a number.

**Main statements.**  `gives_json`: what is read is canonical.  `Canonical.readFrom_write`: what is
canonical is read back.
-/

namespace BlockSteps.Json

/-! ## Canonical values -/

mutual

/-- A value that a reader can give. -/
def Canonical : Json → Prop
  | .null => True
  | .boolean _ => True
  | .integer n => -2 ^ 63 ≤ n ∧ n < 2 ^ 64
  | .real x => x.isFinite = true
  | .text _ => True
  | .array items => CanonicalItems items
  | .object members => members.Pairwise (fun p q => p.1 < q.1) ∧ CanonicalMembers members

/-- Items that a reader can give. -/
def CanonicalItems : List Json → Prop
  | [] => True
  | item :: rest => item.Canonical ∧ CanonicalItems rest

/-- The values of members that a reader can give. -/
def CanonicalMembers : List (String × Json) → Prop
  | [] => True
  | (_, value) :: rest => value.Canonical ∧ CanonicalMembers rest

end

theorem canonicalMembers_iff {members : List (String × Json)} :
    CanonicalMembers members ↔ ∀ p ∈ members, p.2.Canonical := by
  induction members with
  | nil => simp [CanonicalMembers]
  | cons p members ih => rw [CanonicalMembers, ih, List.forall_mem_cons]

/-! ## What is read is canonical -/

section

variable [Rounding]

theorem Numeral.canonical_of_value? {n : Numeral} {j : Json} (h : n.value? = some j) :
    j.Canonical := by
  cases j with
  | integer i => exact n.bounds_of_value? h
  | real x => exact n.isFinite_of_value? h
  | null | boolean | text => trivial
  | array | object =>
    -- A number has no such value.
    unfold Numeral.value? at h
    dsimp only at h
    split_ifs at h <;> cases h

mutual

theorem canonical_of_json {room : Room} : ∀ {d : Draft} {j : Json}, d.json room = .ok j →
    j.Canonical
  | .null, j, h => by
    cases h
    trivial
  | .boolean b, j, h => by
    cases h
    trivial
  | .number n, j, h => by
    rw [Draft.json] at h
    split at h
    · rename_i hvalue
      cases h
      exact Numeral.canonical_of_value? hvalue
    · cases h
  | .text (some s), j, h => by
    cases h
    trivial
  | .text none, j, h => by cases h
  | .array items stop, j, h => by
    simp only [Draft.json, bind_eq_ok_iff] at h
    obtain ⟨inner, -, js, hjs, -, -, h⟩ := h
    cases h
    exact canonical_of_jsonItems hjs
  | .object members stop, j, h => by
    simp only [Draft.json, bind_eq_ok_iff] at h
    obtain ⟨inner, -, ps, hps, -, -, h⟩ := h
    cases h
    refine ⟨(Dict.ofList ps).increasing, canonicalMembers_iff.mpr fun p hp => ?_⟩
    exact canonicalMembers_iff.mp (canonical_of_jsonMembers hps) p (Dict.mem_entries_ofList hp)
  | .fault f, j, h => by cases h

theorem canonical_of_jsonItems {room : Room} : ∀ {items : List Draft} {js : List Json},
    jsonItems room items = .ok js → CanonicalItems js
  | [], js, h => by
    cases h
    trivial
  | item :: rest, js, h => by
    simp only [jsonItems, bind_eq_ok_iff] at h
    obtain ⟨j, hj, js, hjs, h⟩ := h
    cases h
    exact ⟨canonical_of_json hj, canonical_of_jsonItems hjs⟩

theorem canonical_of_jsonMembers {room : Room} :
    ∀ {members : List (Option String × Draft)} {ps : List (String × Json)},
      jsonMembers room members = .ok ps → CanonicalMembers ps
  | [], ps, h => by
    cases h
    trivial
  | (none, _) :: _, ps, h => by cases h
  | (some name, value) :: rest, ps, h => by
    simp only [jsonMembers, bind_eq_ok_iff] at h
    obtain ⟨j, hj, ps, hps, h⟩ := h
    cases h
    exact ⟨canonical_of_json hj, canonical_of_jsonMembers hps⟩

end

/-- **What is read is canonical.** -/
theorem gives_json (room : Room) : Gives (Draft.json room) Canonical := fun _ _ =>
  canonical_of_json

/-! ## What is canonical is read back -/

mutual

/-- A draft that says what a canonical value is, is read as this value. -/
theorem Canonical.json_eq_ok : ∀ {j : Json} {d : Draft}, j.Canonical → j.Says d →
    d.json none = .ok j
  | .null, _, _, .null => rfl
  | .boolean b, _, _, .boolean _ => rfl
  | .integer n, _, _, .integer hvalue => by rw [Draft.json, hvalue]
  | .real x, _, _, .real hvalue => by rw [Draft.json, hvalue]
  | .text s, _, _, .text _ => rfl
  | .array items, _, hj, .array hitems => by
    rw [Draft.json, Room.open, ok_bind, CanonicalItems.jsonItems_eq_ok hj hitems]
    rfl
  | .object members, _, hj, .object hmembers => by
    have hentries : (Dict.ofList members).entries = members := Dict.entries_ofList hj.1
    rw [Draft.json, Room.open, ok_bind, CanonicalMembers.jsonMembers_eq_ok hj.2 hmembers, ok_bind]
    exact congrArg (Except.ok ∘ Json.object) hentries

theorem CanonicalItems.jsonItems_eq_ok : ∀ {items : List Json} {drafts : List Draft},
    CanonicalItems items → SaysItems items drafts → jsonItems none drafts = .ok items
  | [], _, _, .nil => rfl
  | item :: items, _, hitems, .cons hitem hrest => by
    rw [jsonItems, hitems.1.json_eq_ok hitem, ok_bind,
      CanonicalItems.jsonItems_eq_ok hitems.2 hrest]
    rfl

theorem CanonicalMembers.jsonMembers_eq_ok :
    ∀ {members : List (String × Json)} {drafts : List (Option String × Draft)},
      CanonicalMembers members → SaysMembers members drafts →
      jsonMembers none drafts = .ok members
  | [], _, _, .nil => rfl
  | (name, value) :: members, _, hmembers, .cons hvalue hrest => by
    rw [jsonMembers, hmembers.1.json_eq_ok hvalue, ok_bind,
      CanonicalMembers.jsonMembers_eq_ok hmembers.2 hrest]
    rfl

end

end

mutual

theorem Canonical.readable : ∀ {j : Json}, j.Canonical → @Readable .nearest j
  | .null, _ => trivial
  | .boolean _, _ => trivial
  | .integer _, h => h
  | .real _, h => ⟨h, readsBack_nearest h⟩
  | .text _, _ => trivial
  | .array _, h => CanonicalItems.readable h
  | .object _, h => CanonicalMembers.readable h.2

theorem CanonicalItems.readable : ∀ {items : List Json}, CanonicalItems items →
    @ReadableItems .nearest items
  | [], _ => trivial
  | _ :: _, h => ⟨h.1.readable, CanonicalItems.readable h.2⟩

theorem CanonicalMembers.readable : ∀ {members : List (String × Json)}, CanonicalMembers members →
    @ReadableMembers .nearest members
  | [], _ => trivial
  | _ :: _, h => ⟨h.1.readable, CanonicalMembers.readable h.2⟩

end

/-- **A canonical value is read back from its text.** -/
theorem Canonical.readFrom_write {j : Json} (hj : j.Canonical) (layout : Layout) :
    @readFrom .nearest _ (@Draft.json .nearest none) (j.write layout) = .ok j :=
  @Json.readFrom_write .nearest _ _ _ _ hj.readable (fun _ hd => @hj.json_eq_ok .nearest _ _ hd)
    layout

/-- The text is the compact one of the value.  Besides being what is written, it has no blanks
outside of strings, and the value is read off it. -/
structure IsCompactTextOf (text : String) (j : Json) : Prop where
  /-- It is what is written. -/
  written : j.compact = text
  /-- No blank stands outside of a string. -/
  compact : IsCompact text
  /-- The value is read off it. -/
  reads : @readFrom .nearest _ (@Draft.json .nearest none) text = .ok j

theorem Canonical.isCompactTextOf {j : Json} (hj : j.Canonical) : IsCompactTextOf j.compact j :=
  ⟨rfl, isCompact_write j, hj.readFrom_write .compact⟩

end BlockSteps.Json

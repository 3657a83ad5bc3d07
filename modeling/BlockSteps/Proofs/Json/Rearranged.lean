import Mathlib
import BlockSteps.Json.Reader
import BlockSteps.Traced
import BlockSteps.Proofs.Json.Texts

/-!
# Drafts with their members rearranged

An object is read by name, so neither the order of its members nor a member under an unknown name
should have a say in what is read.  Which names are unknown depends on where in the format the
object stands: a `Format` says for each place what it knows there, and to which places members and
items lead.  Two drafts are `Rearranged` if at every place, at any depth, the members of the one are
those of the other in some order, with some more under unknown names.

The relation is between drafts, not texts, but it leaves no text out: whatever a text is rearranged
to is the draft of some text again.

**Main statement.**  `exists_ofText_of_rearranged`.
-/

namespace BlockSteps.Json

/-! ## Distinct names, skipped values -/

mutual

/-- In no object of the draft does a name stand twice. -/
def Draft.distinct : Draft → Bool
  | .null => true
  | .boolean _ => true
  | .number _ => true
  | .text _ => true
  | .array items _ => distinctItems items
  | .object members _ => decide (members.filterMap Prod.fst).Nodup && distinctMembers members
  | .fault _ => true

/-- In no object of the items does a name stand twice. -/
def distinctItems : List Draft → Bool
  | [] => true
  | item :: rest => item.distinct && distinctItems rest

/-- In no object in the members does a name stand twice. -/
def distinctMembers : List (Option String × Draft) → Bool
  | [] => true
  | (_, value) :: rest => value.distinct && distinctMembers rest

end

mutual

/-- A whole value can be skipped. -/
theorem Draft.skip_eq_ok : ∀ {d : Draft}, d.whole = true → d.skip = .ok ()
  | .null, _ => rfl
  | .boolean _, _ => rfl
  | .number _, _ => rfl
  | .text _, _ => rfl
  | .array items none, h => by
    have hitems : wholeItems items = true := h
    rw [Draft.skip, skipItems_eq_ok hitems]
    rfl
  | .object members none, h => by
    have hmembers : wholeMembers members = true := h
    rw [Draft.skip, skipMembers_eq_ok hmembers]
    rfl

theorem skipItems_eq_ok : ∀ {items : List Draft}, wholeItems items = true → skipItems items = .ok ()
  | [], _ => rfl
  | item :: rest, h => by
    obtain ⟨hitem, hrest⟩ := (Bool.and_eq_true ..).mp h
    rw [skipItems, Draft.skip_eq_ok hitem, ok_bind, skipItems_eq_ok hrest]

theorem skipMembers_eq_ok : ∀ {members : List (Option String × Draft)},
    wholeMembers members = true → skipMembers members = .ok ()
  | [], _ => rfl
  | (name, value) :: rest, h => by
    obtain ⟨hvalue, hrest⟩ := (Bool.and_eq_true ..).mp h
    rw [skipMembers, Draft.skip_eq_ok hvalue, ok_bind, skipMembers_eq_ok hrest]

end

theorem skipMembers_eq_ok_iff {members : List (Option String × Draft)} :
    skipMembers members = .ok () ↔ ∀ m ∈ members, m.2.skip = .ok () := by
  induction members with
  | nil => exact ⟨fun _ _ h => absurd h List.not_mem_nil, fun _ => rfl⟩
  | cons m members ih =>
    rw [skipMembers, List.forall_mem_cons, ← ih]
    cases m.2.skip with
    | ok => exact (and_iff_right rfl).symm
    | error e =>
      constructor
      · intro h
        cases h
      · rintro ⟨h, -⟩
        cases h

/-! ## Rearranging -/

/-- A format as far as names go.  Its places are where a value can stand. -/
structure Format (P : Type) where
  /-- Whether a name means something in an object at a place. -/
  knows : P → String → Bool
  /-- Where the value of a member stands, given the name, which is none if it is no text. -/
  under : P → Option String → P
  /-- Where an item stands, given its number. -/
  item : P → ℕ → P

variable {P : Type} {F : Format P} {p : P}

/-- Members that may be added at a place: each has a name that means nothing there, and a value. -/
def Format.Adds (F : Format P) (p : P) (added : List (Option String × Draft)) : Prop :=
  ∀ m ∈ added, (∃ name, m.1 = some name ∧ F.knows p name = false) ∧ m.2.whole = true

mutual

/-- At every place below, the objects of the second draft have the members of the first in some
order, and some more under names that mean nothing there. -/
inductive Rearranged (F : Format P) : P → Draft → Draft → Prop where
  /-- The value `null` stays. -/
  | null {p : P} : Rearranged F p .null .null
  /-- A truth value stays. -/
  | boolean {p : P} (b : Bool) : Rearranged F p (.boolean b) (.boolean b)
  /-- A number stays, and so does its spelling. -/
  | number {p : P} (n : Numeral) : Rearranged F p (.number n) (.number n)
  /-- A string stays. -/
  | text {p : P} (s : Option String) : Rearranged F p (.text s) (.text s)
  /-- The items of an array keep their order. -/
  | array {p : P} {items items' : List Draft} (h : RearrangedItems F p 0 items items') :
      Rearranged F p (.array items none) (.array items' none)
  /-- The members of an object do not. -/
  | object {p : P} {members kept added members' : List (Option String × Draft)}
      (h : RearrangedMembers F p members kept) (hadded : F.Adds p added)
      (hperm : (added ++ kept).Perm members') :
      Rearranged F p (.object members none) (.object members' none)

/-- The items are rearranged, each at its place; the first of them has the given number. -/
inductive RearrangedItems (F : Format P) : P → ℕ → List Draft → List Draft → Prop where
  /-- There are none. -/
  | nil {p : P} {i : ℕ} : RearrangedItems F p i [] []
  /-- One more. -/
  | cons {p : P} {i : ℕ} {item item' : Draft} {items items' : List Draft}
      (h : Rearranged F (F.item p i) item item')
      (hrest : RearrangedItems F p (i + 1) items items') :
      RearrangedItems F p i (item :: items) (item' :: items')

/-- The values of the members are rearranged, each at its place, under the same names. -/
inductive RearrangedMembers (F : Format P) :
    P → List (Option String × Draft) → List (Option String × Draft) → Prop where
  /-- There are none. -/
  | nil {p : P} : RearrangedMembers F p [] []
  /-- One more. -/
  | cons {p : P} {name : Option String} {value value' : Draft}
      {members members' : List (Option String × Draft)}
      (h : Rearranged F (F.under p name) value value')
      (hrest : RearrangedMembers F p members members') :
      RearrangedMembers F p ((name, value) :: members) ((name, value') :: members')

end

/-- Where every name means something, none is added. -/
theorem Format.Adds.eq_nil {added : List (Option String × Draft)} (h : F.Adds p added)
    (hknows : ∀ name, F.knows p name = true) : added = [] := by
  refine List.eq_nil_iff_forall_not_mem.mpr fun m hm => ?_
  obtain ⟨⟨name, -, hname⟩, -⟩ := h m hm
  rw [hknows name] at hname
  cases hname

mutual

/-- What a whole draft is rearranged to is whole. -/
theorem Rearranged.whole : ∀ {p : P} {d d' : Draft}, Rearranged F p d d' → d.whole = true →
    d'.whole = true
  | _, .null, _, .null, _ => rfl
  | _, .boolean _, _, .boolean _, _ => rfl
  | _, .number _, _, .number _, hd => hd
  | _, .text _, _, .text _, _ => rfl
  | _, .array _ _, _, .array h, hd =>
    (Bool.and_eq_true ..).mpr ⟨rfl, h.whole hd⟩
  | _, .object _ _, _, .object h hadded hperm, hd => by
    refine (Bool.and_eq_true ..).mpr ⟨rfl, wholeMembers_iff.mpr fun m hm => ?_⟩
    rcases List.mem_append.mp (hperm.mem_iff.mpr hm) with hm | hm
    · exact (hadded m hm).2
    · exact wholeMembers_iff.mp (h.whole hd) m hm

theorem RearrangedItems.whole : ∀ {p : P} {i : ℕ} {items items' : List Draft},
    RearrangedItems F p i items items' → wholeItems items = true → wholeItems items' = true
  | _, _, [], _, .nil, _ => rfl
  | _, _, _ :: _, _, .cons h hrest, hd =>
    have hd := (Bool.and_eq_true ..).mp hd
    (Bool.and_eq_true ..).mpr ⟨h.whole hd.1, hrest.whole hd.2⟩

theorem RearrangedMembers.whole : ∀ {p : P} {members members' : List (Option String × Draft)},
    RearrangedMembers F p members members' → wholeMembers members = true →
      wholeMembers members' = true
  | _, [], _, .nil, _ => rfl
  | _, _ :: _, _, .cons h hrest, hd =>
    have hd := (Bool.and_eq_true ..).mp hd
    (Bool.and_eq_true ..).mpr ⟨h.whole hd.1, hrest.whole hd.2⟩

end

mutual

/-- What a draft is rearranged to can be skipped. -/
theorem Rearranged.skip_eq_ok : ∀ {p : P} {d d' : Draft}, Rearranged F p d d' → d'.skip = .ok ()
  | _, .null, _, .null => rfl
  | _, .boolean _, _, .boolean _ => rfl
  | _, .number _, _, .number _ => rfl
  | _, .text _, _, .text _ => rfl
  | _, .array _ _, _, .array h => by
    rw [Draft.skip, h.skip_eq_ok]
    rfl
  | _, .object _ _, _, .object h hadded hperm => by
    rw [Draft.skip, skipMembers_eq_ok_iff.mpr fun m hm => ?_]
    · rfl
    · rcases List.mem_append.mp (hperm.mem_iff.mpr hm) with hm | hm
      · exact Draft.skip_eq_ok (hadded m hm).2
      · exact h.skip_eq_ok m hm

theorem RearrangedItems.skip_eq_ok : ∀ {p : P} {i : ℕ} {items items' : List Draft},
    RearrangedItems F p i items items' → skipItems items' = .ok ()
  | _, _, [], _, .nil => rfl
  | _, _, _ :: _, _, .cons h hrest => by
    rw [skipItems, h.skip_eq_ok, ok_bind, hrest.skip_eq_ok]

theorem RearrangedMembers.skip_eq_ok :
    ∀ {p : P} {members members' : List (Option String × Draft)},
      RearrangedMembers F p members members' → ∀ m ∈ members', m.2.skip = .ok ()
  | _, [], _, .nil, _, hm => absurd hm List.not_mem_nil
  | _, _ :: _, _, .cons h hrest, m, hm => by
    rcases List.mem_cons.mp hm with rfl | hm
    · exact h.skip_eq_ok
    · exact hrest.skip_eq_ok m hm

end

/-! ## Texts -/

/-- However the members of a text are rearranged, there is a text that has them so. -/
theorem exists_ofText_of_rearranged {d : Draft} {text : String}
    (htext : (Draft.ofText text).2 = true)
    (hd : Rearranged F p (Draft.ofText text).1 d) : ∃ text', Draft.ofText text' = (d, true) :=
  exists_ofText_iff.mpr (hd.whole (whole_of_ofText (Prod.ext rfl htext)))

end BlockSteps.Json

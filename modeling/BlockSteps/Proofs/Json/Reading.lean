import Mathlib
import BlockSteps.Json.Reader
import BlockSteps.Proofs.Decimal.Comparison
import BlockSteps.Traced

/-!
# What readers give

A statement about everything that a reader can give, on whatever draft, follows the way in which the
reader is put together: from the reader of the items to the reader of the sequence, from the fields
to the record.

A record takes its members in the order of the text, so what is said of it must hold of the blank
record and be kept by every field (`Field.Keeps`); then it holds of every record that is read
(`gives_record`).
-/

namespace BlockSteps.Json

variable {α β : Type}

/-- Whatever is read has the property. -/
def Gives (read : Reader α) (P : α → Prop) : Prop := ∀ d x, read d = .ok x → P x

/-- Taking the field keeps the property. -/
def Field.Keeps (f : Field α) (P : α → Prop) : Prop :=
  ∀ d change, f.take d = .ok change → ∀ r, P r → P (change r)

variable {read : Reader α} {P : α → Prop}

/-! ## Numbers -/

/-- The whole numbers that a text can hold as such are those of 64 bits. -/
theorem Numeral.bounds_of_value? [Rounding] {n : Numeral} {i : ℤ}
    (h : n.value? = some (.integer i)) : -2 ^ 63 ≤ i ∧ i < 2 ^ 64 := by
  have hsize : UInt64.size = 2 ^ 64 := rfl
  have hmin : Int64.minValue.toInt = -2 ^ 63 := rfl
  unfold Numeral.value? at h
  dsimp only at h
  rw [hsize, hmin] at h
  simp only [Bool.and_eq_true, decide_eq_true_eq] at h
  split at h
  · cases h
    omega
  · split at h
    · cases h
      omega
    · split at h <;> cases h

theorem Numeral.isFinite_of_value? [Rounding] {n : Numeral} {x : Float}
    (h : n.value? = some (.real x)) : x.isFinite = true := by
  unfold Numeral.value? at h
  dsimp only at h
  split at h
  · cases h
  · split at h
    · cases h
    · split at h
      · cases h
        assumption
      · cases h

/-- A number that is read is finite. -/
theorem gives_readNumber [Rounding] : Gives readNumber fun x => x.isFinite = true := by
  intro d x hx
  cases d with
  | number n =>
    rw [readNumber] at hx
    cases hvalue : n.value? with
    | none =>
      rw [hvalue] at hx
      cases hx
    | some j =>
      rw [hvalue] at hx
      cases j with
      | integer i =>
        cases hx
        have hbounds := n.bounds_of_value? hvalue
        exact Decimal.isFinite_ofInt (by omega)
      | real y =>
        cases hx
        exact n.isFinite_of_value? hvalue
      | null | boolean | text | array | object => cases hx
  | null | boolean | text | array | object | fault => cases hx

/-! ## Several values -/

theorem gives_readOptional (h : Gives read P) :
    Gives (readOptional read) fun o => ∀ x ∈ o, P x := by
  intro d o ho x hx
  obtain rfl := Option.mem_def.mp hx
  have hread : read d = .ok x := by
    cases d with
    | null => cases ho
    | boolean | number | text | array | object | fault =>
      simp only [readOptional, Except.map] at ho
      split at ho
      · cases ho
      · rename_i y hy
        cases ho
        exact hy
  exact h d x hread

theorem forall_of_readItems (h : Gives read P) :
    ∀ {items : List Draft} {xs : List α}, readItems read items = .ok xs → ∀ x ∈ xs, P x
  | [], xs, hxs, x, hx => by
    cases hxs
    exact absurd hx List.not_mem_nil
  | item :: rest, xs, hxs, x, hx => by
    simp only [readItems, bind_eq_ok_iff] at hxs
    obtain ⟨y, hy, ys, hys, hxs⟩ := hxs
    cases hxs
    rcases List.mem_cons.mp hx with rfl | hx
    · exact h item x hy
    · exact forall_of_readItems h hys x hx

theorem gives_readList (h : Gives read P) : Gives (readList read) fun xs => ∀ x ∈ xs, P x := by
  intro d xs hxs
  cases d with
  | array items stop =>
    simp only [readList, bind_eq_ok_iff] at hxs
    obtain ⟨ys, hys, -, -, hxs⟩ := hxs
    cases hxs
    exact forall_of_readItems h hys
  | null | boolean | number | text | object | fault => cases hxs

theorem forall_of_readEntries (h : Gives read P) :
    ∀ {members : List (Option String × Draft)} {ps : List (String × α)},
      readEntries read members = .ok ps → ∀ p ∈ ps, P p.2
  | [], ps, hps, p, hp => by
    cases hps
    exact absurd hp List.not_mem_nil
  | (none, _) :: _, ps, hps, _, _ => by cases hps
  | (some name, value) :: rest, ps, hps, p, hp => by
    simp only [readEntries, bind_eq_ok_iff] at hps
    obtain ⟨x, hx, qs, hqs, hps⟩ := hps
    cases hps
    rcases List.mem_cons.mp hp with rfl | hp
    · exact h value x hx
    · exact forall_of_readEntries h hqs p hp

theorem gives_readDict (h : Gives read P) :
    Gives (readDict read) fun d => ∀ p ∈ d.entries, P p.2 := by
  intro d dict hdict
  cases d with
  | object members stop =>
    simp only [readDict, bind_eq_ok_iff] at hdict
    obtain ⟨ps, hps, -, -, hdict⟩ := hdict
    cases hdict
    exact fun p hp => forall_of_readEntries h hps p (Dict.mem_entries_ofList hp)
  | null | boolean | number | text | array | fault => cases hdict

/-! ## Records -/

/-- A field keeps what its setter keeps for every value that its reader gives. -/
theorem Field.keeps_of {name : String} {required : Bool} {set : α → β → β} {Q : β → Prop}
    (h : Gives read P) (hset : ∀ v r, P v → Q r → Q (set v r)) :
    (Field.of name required read set).Keeps Q := by
  intro d change hchange r hr
  simp only [Field.of, Except.map] at hchange
  split at hchange
  · cases hchange
  · rename_i v hv
    cases hchange
    exact hset v r (h d v hv) hr

/-- Members that are known change the record, all others leave it as it is. -/
theorem keeps_readMembers {fields : List (Field α)} {stop : Option Fault}
    (hfields : ∀ f ∈ fields, f.Keeps P) :
    ∀ {members : List (Option String × Draft)} {given : List String} {r s : α},
      P r → readMembers fields stop members given r = .ok s → P s
  | [], given, r, s, hr, h => by
    simp only [readMembers, bind_eq_ok_iff] at h
    obtain ⟨-, -, -, -, h⟩ := h
    cases h
    exact hr
  | (none, _) :: _, _, _, _, _, h => by cases h
  | (some name, value) :: rest, given, r, s, hr, h => by
    rw [readMembers] at h
    split at h
    · rw [bind_eq_ok_iff] at h
      obtain ⟨-, -, h⟩ := h
      exact keeps_readMembers hfields hr h
    · rename_i f hf
      split at h
      · cases h
      · rw [bind_eq_ok_iff] at h
        obtain ⟨change, hchange, h⟩ := h
        have hkeeps := hfields f (List.mem_of_find?_eq_some hf)
        exact keeps_readMembers hfields (hkeeps value change hchange r hr) h

theorem keeps_readPositions {record : Record α} {stop : Option Fault} :
    ∀ {fields : List (Field α)} {items : List Draft} {done : Nat} {r s : α},
      (∀ f ∈ fields, f.Keeps P) → P r →
      readPositions record stop done fields items r = .ok s → P s
  | [], [], _, r, s, _, hr, h => by
    simp only [readPositions, bind_eq_ok_iff] at h
    obtain ⟨-, -, h⟩ := h
    cases h
    exact hr
  | [], _ :: _, _, _, _, _, _, h => by cases h
  | f :: fields, [], done, r, s, _, hr, h => by
    simp only [readPositions, bind_eq_ok_iff] at h
    obtain ⟨-, -, -, -, h⟩ := h
    cases h
    exact hr
  | f :: fields, item :: rest, done, r, s, hfields, hr, h => by
    rw [readPositions, bind_eq_ok_iff] at h
    obtain ⟨change, hchange, h⟩ := h
    rw [List.forall_mem_cons] at hfields
    exact keeps_readPositions hfields.2 (hfields.1 item change hchange r hr) h

/-- What holds of the blank record and is kept by every field holds of every record. -/
theorem gives_record {record : Record α} (hblank : P record.blank)
    (hfields : ∀ f ∈ record.fields, f.Keeps P) : Gives record.read P := by
  intro d r hr
  cases d with
  | object members stop => exact keeps_readMembers hfields hblank hr
  | array items stop => exact keeps_readPositions hfields hblank hr
  | null | boolean | number | text | fault => cases hr

/-- The draft of the characters of a text, and whether only blanks follow its value. -/
def Draft.ofChars (cs : List Char) : Draft × Bool :=
  match scanValue (2 * cs.length + 2) cs with
  | (d, some rest) => (d, (skipBlanks rest).isEmpty)
  | (d, none) => (d, false)

theorem Draft.ofText_eq_ofChars (text : String) : Draft.ofText text = Draft.ofChars text.toList :=
  rfl

/-- The draft of a text whose characters are given. -/
theorem Draft.ofText_eq {text : String} {cs : List Char} (h : text = String.ofList cs) :
    Draft.ofText text = Draft.ofChars cs := by
  rw [Draft.ofText_eq_ofChars, h, String.toList_ofList]

/-- What a reader gives is what a text read by it gives. -/
theorem of_readFrom (h : Gives read P) {text : String} {x : α} (hx : readFrom read text = .ok x) :
    P x := by
  unfold readFrom at hx
  generalize Draft.ofText text = draft at hx
  obtain ⟨d, ended⟩ := draft
  rw [bind_eq_ok_iff] at hx
  obtain ⟨y, hy, hx⟩ := hx
  split at hx
  · cases hx
    exact h d x hy
  · cases hx

end BlockSteps.Json

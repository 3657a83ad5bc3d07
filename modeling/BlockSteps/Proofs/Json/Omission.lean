import Mathlib
import BlockSteps.Proofs.Json.RoundTrip

/-!
# Values with members left out

A member of a value is found by the names on the way to it, from the outermost object inwards.
`Json.without` leaves out the members at the end of some ways, and with a member everything in it.

A record none of whose fields is required is read from what is left.  A field that is left out has
the value of the blank record.  A field that is still there may have lost members itself, and then
what it gives depends on what it lost.  So the walk through the fields (`Fills`) asks of each what
is read from its value *without what is dropped in it*, and of the blank record what stands there
otherwise.

**Main statement.**  `Record.read_without`.
-/

namespace BlockSteps.Json

/-! ## Leaving members out -/

mutual

/-- The value without the members at the end of the ways that are dropped.  No way leads into an
array. -/
def without : (drop : List String → Bool) → Json → Json
  | _, .null => .null
  | _, .boolean b => .boolean b
  | _, .integer n => .integer n
  | _, .real x => .real x
  | _, .text s => .text s
  | _, .array items => .array items
  | drop, .object members => .object (membersWithout drop members)

/-- The members without those at the end of the ways that are dropped. -/
def membersWithout : (drop : List String → Bool) → List (String × Json) → List (String × Json)
  | _, [] => []
  | drop, (name, value) :: rest =>
    if drop [name] then membersWithout drop rest
    else (name, value.without fun way => drop (name :: way)) :: membersWithout drop rest

end

mutual

/-- Where no way is dropped, the value stays as it is. -/
theorem without_eq_self : ∀ {drop : List String → Bool} (j : Json),
    (∀ name way, drop (name :: way) = false) → j.without drop = j
  | _, .null, _ => rfl
  | _, .boolean _, _ => rfl
  | _, .integer _, _ => rfl
  | _, .real _, _ => rfl
  | _, .text _, _ => rfl
  | _, .array _, _ => rfl
  | _, .object members, h => congrArg object (membersWithout_eq_self members h)

/-- Where no way is dropped, the members stay as they are. -/
theorem membersWithout_eq_self : ∀ {drop : List String → Bool} (members : List (String × Json)),
    (∀ name way, drop (name :: way) = false) → membersWithout drop members = members
  | _, [], _ => rfl
  | _, (name, value) :: rest, h => by
    rw [membersWithout, h name [], if_neg Bool.false_ne_true, membersWithout_eq_self rest h,
      without_eq_self value fun inner way => h name (inner :: way)]

end

/-- Where no member is dropped itself, all of them stay, and each may lose members. -/
theorem membersWithout_eq_map {drop : List String → Bool} {members : List (String × Json)}
    (h : ∀ name, drop [name] = false) :
    membersWithout drop members =
      members.map fun p => (p.1, p.2.without fun way => drop (p.1 :: way)) := by
  induction members with
  | nil => rfl
  | cons p members ih =>
    rw [membersWithout, h p.1, if_neg Bool.false_ne_true, ih]
    rfl

variable [Rounding]

mutual

theorem Readable.without : ∀ {j : Json} (drop : List String → Bool), j.Readable →
    (j.without drop).Readable
  | .null, _, h => h
  | .boolean _, _, h => h
  | .integer _, _, h => h
  | .real _, _, h => h
  | .text _, _, h => h
  | .array _, _, h => h
  | .object _, drop, h => readableMembers_without drop h

theorem readableMembers_without : ∀ {members : List (String × Json)} (drop : List String → Bool),
    ReadableMembers members → ReadableMembers (membersWithout drop members)
  | [], _, h => h
  | (name, value) :: rest, drop, h => by
    rw [membersWithout]
    split
    · exact readableMembers_without drop h.2
    · exact ⟨h.1.without _, readableMembers_without drop h.2⟩

end

/-! ## Reading what is left -/

variable {α : Type} {drop : List String → Bool}

/-- The members, without what is dropped, give the fields of a record in order and take the first
record to the second.  None of the fields is required. -/
inductive Fills (drop : List String → Bool) :
    List (Field α) → List (String × Json) → α → α → Prop where
  /-- No fields are left. -/
  | nil (r : α) : Fills drop [] [] r r
  /-- The next field is left out if `p` holds, and `y` stands in the record then; otherwise it gives
  `x`. -/
  | cons {β : Type} {name : String} {read : Reader β} {set : β → α → α} {value : Json}
      {fields : List (Field α)} {members : List (String × Json)} {r s : α} {x y : β} {p : Prop}
      [Decidable p] (hdrop : drop [name] = decide p)
      (hread : ∀ d, Says (value.without fun way => drop (name :: way)) d → read d = .ok x)
      (hblank : set y r = r) (hrest : Fills drop fields members (set (if p then y else x) r) s) :
      Fills drop (.of name false read set :: fields) ((name, value) :: members) r s

theorem Fills.takesSome {fields : List (Field α)} {members : List (String × Json)} {r s : α}
    (h : Fills drop fields members r s) :
    ∀ {drafts : List (Option String × Draft)}, SaysMembers (membersWithout drop members) drafts →
      TakesSome fields drafts r s := by
  induction h with
  | nil r =>
    intro drafts hdrafts
    cases hdrafts
    exact .nil r
  | @cons β name read set value fields members r s x y p _ hdrop hread hblank hrest ih =>
    intro drafts hdrafts
    rw [membersWithout, hdrop] at hdrafts
    by_cases hp : p
    · rw [if_pos (decide_eq_true hp)] at hdrafts
      rw [if_pos hp, hblank] at ih
      exact .leave rfl (ih hdrafts)
    · rw [if_neg (decide_eq_false hp ▸ Bool.false_ne_true)] at hdrafts
      rw [if_neg hp] at ih
      cases hdrafts with
      | cons hvalue hdrafts =>
        exact .cons (Field.take_of (hread _ hvalue)) (ih hdrafts)

/-- **A record is read from what is left of its members.** -/
theorem Record.read_without {record : Record α} (hnames : (record.fields.map Field.name).Nodup)
    {members : List (String × Json)} {r : α}
    (h : Fills drop record.fields members record.blank r) {d : Draft}
    (hd : Says ((Json.object members).without drop) d) : record.read d = .ok r := by
  cases hd with
  | object hdrafts => exact record.read_of_takesSome hnames (h.takesSome hdrafts)

end BlockSteps.Json

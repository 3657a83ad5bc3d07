import Mathlib
import BlockSteps.Proofs.Json.Rearranged

/-!
# Readers to which the order of members is nothing

A reader is *steady* at a place of a format if it reads the same from a rearranged draft.  Readers
of strings and numbers are steady, and lists, dictionaries and records are read steadily if what is
in them is.  Records and dictionaries both do without the order of members, but not for the same
reason.  A record takes its members one after the other, but what they change in it lies apart
(`Field.Apart`), so the changes may be made in any order (`TakesMembers.perm`).  A dictionary is
determined by what stands under each name, whatever was put in first (`Dict.ofList_perm`).

**Two readers.**  Steadiness relates two readers, because nested values are read with a bound that
comes from the draft: the rearranged draft may be higher, and is then read with a greater one.

**Names that stand twice.**  A record refuses two members of one name.  A dictionary and a value of
any kind do not: there the later one stays, so the order does count.  Hence the condition that the
names in each object are distinct.

**Main statements.**  `steady_record`, `steady_readDict` and `steady_json`.
-/

namespace BlockSteps

namespace Dict

variable {α : Type}

theorem insertAll_perm {xs ys : List (String × α)} (h : xs.Perm ys) (d : Dict α)
    (hnames : (xs.map Prod.fst).Nodup) : d.insertAll xs = d.insertAll ys := by
  induction h generalizing d with
  | nil => rfl
  | cons p _ ih => exact ih (d.insert p.1 p.2) (List.nodup_cons.mp hnames).2
  | swap p q l =>
    have hne : q.1 ≠ p.1 := fun h => (List.nodup_cons.mp hnames).1 (h ▸ List.mem_cons_self)
    rw [insertAll_cons, insertAll_cons, insertAll_cons, insertAll_cons, insert_comm d _ _ hne]
  | trans hxy _ ihx ihy =>
    exact (ihx d hnames).trans (ihy d ((hxy.map Prod.fst).nodup_iff.mp hnames))

/-- Distinct names may be put in in any order. -/
theorem ofList_perm {xs ys : List (String × α)} (h : xs.Perm ys)
    (hnames : (xs.map Prod.fst).Nodup) : ofList xs = ofList ys :=
  insertAll_perm h empty hnames

end Dict

namespace Json

variable {P : Type} {F : Format P} {p : P}

/-! ## Steady readers -/

variable {α : Type}

/-- The second reader makes of a rearranged draft what the first makes of the draft, if no name
stands twice in an object of that. -/
def Steady (F : Format P) (p : P) (read read' : Reader α) : Prop :=
  ∀ d d' x, Rearranged F p d d' → d.distinct = true → read d = .ok x → read' d' = .ok x

variable {read read' : Reader α}

theorem steady_readText : Steady F p readText readText := by
  intro d d' x h _ hx
  cases h with
  | text => exact hx
  | null | boolean | number | array | object => cases hx

theorem steady_readNumber : Steady F p readNumber readNumber := by
  intro d d' x h _ hx
  cases h with
  | number => exact hx
  | null | boolean | text | array | object => cases hx

theorem steady_readOptional (h : Steady F p read read') :
    Steady F p (readOptional read) (readOptional read') := by
  intro d d' o hd hdistinct ho
  -- Whatever is not `null` is read by the reader itself.
  have hread : ∀ {o}, (read d).map some = .ok o → (read' d').map some = .ok o := by
    intro o ho
    cases hx : read d with
    | error e => rw [hx] at ho; cases ho
    | ok x =>
      rw [hx] at ho
      rw [h d d' x hd hdistinct hx]
      exact ho
  cases hd with
  | null => exact ho
  | boolean | number | text | array | object => exact hread ho

/-! ### Sequences -/

theorem readItems_of_rearranged {i : ℕ} {items items' : List Draft} {xs : List α}
    (h : ∀ i, Steady F (F.item p i) read read') (hitems : RearrangedItems F p i items items')
    (hdistinct : distinctItems items = true) (hxs : readItems read items = .ok xs) :
    readItems read' items' = .ok xs := by
  induction items generalizing i items' xs with
  | nil => cases hitems; exact hxs
  | cons item items ih =>
    cases hitems with
    | cons hitem hrest =>
      obtain ⟨hd, hds⟩ := (Bool.and_eq_true ..).mp hdistinct
      simp only [readItems, bind_eq_ok_iff] at hxs ⊢
      obtain ⟨y, hy, ys, hys, hxs⟩ := hxs
      exact ⟨y, h i _ _ y hitem hd hy, ys, ih hrest hds hys, hxs⟩

theorem steady_readList (h : ∀ i, Steady F (F.item p i) read read') :
    Steady F p (readList read) (readList read') := by
  intro d d' xs hd hdistinct hxs
  cases hd with
  | array hitems =>
    simp only [readList, bind_eq_ok_iff] at hxs ⊢
    obtain ⟨ys, hys, hxs⟩ := hxs
    exact ⟨ys, readItems_of_rearranged h hitems hdistinct hys, hxs⟩
  | null | boolean | number | text | object => cases hxs

/-! ### Dictionaries -/

theorem readEntries_of_rearranged {members members' : List (Option String × Draft)}
    {xs : List (String × α)} (h : ∀ name, Steady F (F.under p (some name)) read read')
    (hmembers : RearrangedMembers F p members members') (hdistinct : distinctMembers members = true)
    (hxs : readEntries read members = .ok xs) : readEntries read' members' = .ok xs := by
  induction members generalizing members' xs with
  | nil => cases hmembers; exact hxs
  | cons m members ih =>
    cases hmembers with
    | @cons _ name value value' _ _ hvalue hrest =>
      obtain ⟨hd, hds⟩ := (Bool.and_eq_true ..).mp hdistinct
      cases name with
      | none => cases hxs
      | some name =>
        simp only [readEntries, bind_eq_ok_iff] at hxs ⊢
        obtain ⟨y, hy, ys, hys, hxs⟩ := hxs
        exact ⟨y, h name _ _ y hvalue hd hy, ys, ih hrest hds hys, hxs⟩

theorem names_of_readEntries {members : List (Option String × Draft)} {xs : List (String × α)}
    (h : readEntries read members = .ok xs) : xs.map Prod.fst = members.filterMap Prod.fst := by
  induction members generalizing xs with
  | nil => cases h; rfl
  | cons m members ih =>
    obtain ⟨name, value⟩ := m
    cases name with
    | none => cases h
    | some name =>
      simp only [readEntries, bind_eq_ok_iff] at h
      obtain ⟨y, -, ys, hys, h⟩ := h
      cases h
      rw [List.map_cons, ih hys]
      rfl

theorem readEntries_perm {members members' : List (Option String × Draft)}
    (hperm : members.Perm members') {xs : List (String × α)}
    (h : readEntries read members = .ok xs) :
    ∃ ys, readEntries read members' = .ok ys ∧ xs.Perm ys := by
  have hcons : ∀ {m : Option String × Draft} {ms : List (Option String × Draft)}
      {xs : List (String × α)}, readEntries read (m :: ms) = .ok xs ↔
        ∃ name x ys, m.1 = some name ∧ read m.2 = .ok x ∧ readEntries read ms = .ok ys ∧
          xs = (name, x) :: ys := by
    intro m ms xs
    obtain ⟨name, value⟩ := m
    cases name with
    | none => exact ⟨(fun h => by cases h), fun ⟨_, _, _, h, _⟩ => by cases h⟩
    | some name =>
      simp only [readEntries, bind_eq_ok_iff]
      constructor
      · rintro ⟨x, hx, ys, hys, hxs⟩
        cases hxs
        exact ⟨name, x, ys, rfl, hx, hys, rfl⟩
      · rintro ⟨_, x, ys, ⟨⟩, hx, hys, rfl⟩
        exact ⟨x, hx, ys, hys, rfl⟩
  induction hperm generalizing xs with
  | nil => exact ⟨xs, h, .refl _⟩
  | cons m _ ih =>
    obtain ⟨name, x, ys, hname, hx, hys, rfl⟩ := hcons.mp h
    obtain ⟨zs, hzs, hperm⟩ := ih hys
    exact ⟨_, hcons.mpr ⟨name, x, zs, hname, hx, hzs, rfl⟩, hperm.cons _⟩
  | swap m n l =>
    obtain ⟨name, x, _, hname, hx, hrest, rfl⟩ := hcons.mp h
    obtain ⟨name', y, zs, hname', hy, hzs, rfl⟩ := hcons.mp hrest
    have hread := hcons.mpr ⟨name, x, zs, hname, hx, hzs, rfl⟩
    exact ⟨_, hcons.mpr ⟨name', y, _, hname', hy, hread, rfl⟩, .swap _ _ _⟩
  | trans _ _ ih ih' =>
    obtain ⟨ys, hys, hperm⟩ := ih h
    obtain ⟨zs, hzs, hperm'⟩ := ih' hys
    exact ⟨zs, hzs, hperm.trans hperm'⟩

/-- **A dictionary does not depend on the order of its members.** -/
theorem ofList_of_rearranged {members kept added members' : List (Option String × Draft)}
    {xs : List (String × α)} (hknows : ∀ name, F.knows p name = true) (hadded : F.Adds p added)
    (hnames : (members.filterMap Prod.fst).Nodup) (hperm : (added ++ kept).Perm members')
    (hmembers : readEntries read members = .ok xs) (hkept : readEntries read' kept = .ok xs) :
    ∃ ys, readEntries read' members' = .ok ys ∧ Dict.ofList ys = Dict.ofList xs := by
  rw [hadded.eq_nil hknows, List.nil_append] at hperm
  obtain ⟨ys, hys, hxs⟩ := readEntries_perm hperm hkept
  rw [← names_of_readEntries hmembers] at hnames
  exact ⟨ys, hys, (Dict.ofList_perm hxs hnames).symm⟩

theorem steady_readDict (hknows : ∀ name, F.knows p name = true)
    (h : ∀ name, Steady F (F.under p (some name)) read read') :
    Steady F p (readDict read) (readDict read') := by
  intro d d' dict hd hdistinct hdict
  cases hd with
  | object hmembers hadded hperm =>
    obtain ⟨hnames, hvalues⟩ := (Bool.and_eq_true ..).mp hdistinct
    simp only [readDict, bind_eq_ok_iff] at hdict ⊢
    obtain ⟨xs, hxs, -, -, hdict⟩ := hdict
    have hkept := readEntries_of_rearranged h hmembers hvalues hxs
    obtain ⟨ys, hys, heq⟩ := ofList_of_rearranged hknows hadded (of_decide_eq_true hnames) hperm
      hxs hkept
    rw [← heq] at hdict
    exact ⟨ys, hys, (), rfl, hdict⟩
  | null | boolean | number | text | array => cases hdict

/-! ### Values of any kind -/

theorem jsonMembers_eq_readEntries (room : Room) (members : List (Option String × Draft)) :
    jsonMembers room members = readEntries (Draft.json room) members := by
  induction members with
  | nil => rfl
  | cons m members ih =>
    obtain ⟨_ | name, value⟩ := m
    · rfl
    · rw [jsonMembers, readEntries, ih]

/-- A place where every name means something, and from which no way leads out. -/
structure Format.Closed (F : Format P) (p : P) : Prop where
  /-- Every name means something. -/
  knows : ∀ name, F.knows p name = true
  /-- The members stay. -/
  under : ∀ name, F.under p name = p
  /-- The items stay. -/
  item : ∀ i, F.item p i = p

mutual

theorem json_of_rearranged (hp : F.Closed p) : ∀ {d d' : Draft} {room : Room} {j : Json},
    Rearranged F p d d' → d.distinct = true → d.json room = .ok j → d'.json room = .ok j
  | .null, _, _, _, .null, _, h => h
  | .boolean _, _, _, _, .boolean _, _, h => h
  | .number _, _, _, _, .number _, _, h => h
  | .text _, _, _, _, .text _, _, h => h
  | .array items _, _, room, j, .array hitems, hdistinct, h => by
    simp only [Draft.json, bind_eq_ok_iff] at h ⊢
    obtain ⟨inner, hinner, xs, hxs, h⟩ := h
    exact ⟨inner, hinner, xs, jsonItems_of_rearranged hp hitems hdistinct hxs, h⟩
  | .object members _, _, room, j, .object hmembers hadded hperm, hdistinct, h => by
    obtain ⟨hnames, hvalues⟩ := (Bool.and_eq_true ..).mp hdistinct
    simp only [Draft.json, bind_eq_ok_iff] at h ⊢
    obtain ⟨inner, hinner, xs, hxs, -, -, h⟩ := h
    have hkept := jsonMembers_of_rearranged hp hmembers hvalues hxs
    rw [jsonMembers_eq_readEntries] at hxs hkept
    obtain ⟨ys, hys, heq⟩ := ofList_of_rearranged hp.knows hadded (of_decide_eq_true hnames) hperm
      hxs hkept
    rw [← heq] at h
    exact ⟨inner, hinner, ys, (jsonMembers_eq_readEntries inner _).trans hys, (), rfl, h⟩

theorem jsonItems_of_rearranged (hp : F.Closed p) : ∀ {items items' : List Draft} {i : ℕ}
    {room : Room} {js : List Json}, RearrangedItems F p i items items' →
      distinctItems items = true → jsonItems room items = .ok js → jsonItems room items' = .ok js
  | [], _, _, _, _, .nil, _, h => h
  | item :: items, _, i, room, js, .cons hitem hrest, hdistinct, h => by
    obtain ⟨hd, hds⟩ := (Bool.and_eq_true ..).mp hdistinct
    rw [hp.item i] at hitem
    simp only [jsonItems, bind_eq_ok_iff] at h ⊢
    obtain ⟨x, hx, xs, hxs, h⟩ := h
    exact ⟨x, json_of_rearranged hp hitem hd hx, xs, jsonItems_of_rearranged hp hrest hds hxs, h⟩

theorem jsonMembers_of_rearranged (hp : F.Closed p) :
    ∀ {members members' : List (Option String × Draft)} {room : Room} {js : List (String × Json)},
      RearrangedMembers F p members members' → distinctMembers members = true →
      jsonMembers room members = .ok js → jsonMembers room members' = .ok js
  | [], _, _, _, .nil, _, h => h
  | (none, _) :: _, _, _, _, .cons _ _, _, h => by cases h
  | (some name, value) :: members, _, room, js, .cons hvalue hrest, hdistinct, h => by
    obtain ⟨hd, hds⟩ := (Bool.and_eq_true ..).mp hdistinct
    rw [hp.under] at hvalue
    simp only [jsonMembers, bind_eq_ok_iff] at h ⊢
    obtain ⟨x, hx, xs, hxs, h⟩ := h
    exact ⟨x, json_of_rearranged hp hvalue hd hx, xs, jsonMembers_of_rearranged hp hrest hds hxs, h⟩

end

theorem steady_json (hp : F.Closed p) (room : Room) :
    Steady F p (Draft.json room) (Draft.json room) :=
  fun _ _ _ => json_of_rearranged hp

/-! ### Records -/

/-- What the two fields change lies apart: it may be changed in either order. -/
def Field.Apart (f g : Field α) : Prop :=
  ∀ d e change change', f.take d = .ok change → g.take e = .ok change' →
    ∀ r, change (change' r) = change' (change r)

theorem Field.apart_of {β γ : Type} {name name' : String} {required required' : Bool}
    {readβ : Reader β} {readγ : Reader γ} {set : β → α → α} {set' : γ → α → α}
    (h : ∀ v w r, set v (set' w r) = set' w (set v r)) :
    (Field.of name required readβ set).Apart (Field.of name' required' readγ set') := by
  intro d e change change' hchange hchange' r
  simp only [Field.of, Except.map] at hchange hchange'
  split at hchange
  · cases hchange
  · split at hchange'
    · cases hchange'
    · cases hchange
      cases hchange'
      exact h _ _ r

variable {fields fields' : List (Field α)}

/-- What a member gives a record: the name that is then given, if it means something, and the
change. -/
inductive TakesMember (fields : List (Field α)) :
    Option String × Draft → List String → (α → α) → Prop where
  /-- The name means nothing, and the value is skipped. -/
  | skip {name : String} {value : Draft} (hname : fields.find? (fun f => f.name == name) = none)
      (hskip : value.skip = .ok ()) : TakesMember fields (some name, value) [] id
  /-- The name is that of a field, which takes the value. -/
  | take {name : String} {value : Draft} {f : Field α} {change : α → α}
      (hname : fields.find? (fun f => f.name == name) = some f)
      (htake : f.take value = .ok change) : TakesMember fields (some name, value) [name] change

/-- What several members give a record, one after the other. -/
inductive TakesMembers (fields : List (Field α)) :
    List (Option String × Draft) → List String → (α → α) → Prop where
  /-- There are none. -/
  | nil : TakesMembers fields [] [] id
  /-- One more. -/
  | cons {m : Option String × Draft} {members : List (Option String × Draft)}
      {names names' : List String} {change change' : α → α} (h : TakesMember fields m names change)
      (hrest : TakesMembers fields members names' change') :
      TakesMembers fields (m :: members) (names ++ names') (change' ∘ change)

theorem readMembers_cons_eq_ok_iff {m : Option String × Draft}
    {members : List (Option String × Draft)} {given : List String} {r s : α} :
    readMembers fields none (m :: members) given r = .ok s ↔
      ∃ names change, TakesMember fields m names change ∧ names.Disjoint given ∧
        readMembers fields none members (names ++ given) (change r) = .ok s := by
  obtain ⟨_ | name, value⟩ := m
  · exact ⟨(fun h => by cases h), fun ⟨_, _, h, _⟩ => by cases h⟩
  rw [readMembers]
  constructor
  · intro h
    split at h
    · rename_i hname
      rw [bind_eq_ok_iff] at h
      obtain ⟨⟨⟩, hskip, h⟩ := h
      exact ⟨[], id, .skip hname hskip, List.disjoint_nil_left _, h⟩
    · rename_i f hname
      split at h
      · cases h
      · rename_i hgiven
        rw [bind_eq_ok_iff] at h
        obtain ⟨change, htake, h⟩ := h
        refine ⟨[name], change, .take hname htake, ?_, h⟩
        exact List.singleton_disjoint.mpr fun hmem => hgiven (List.contains_iff_mem.mpr hmem)
  · rintro ⟨names, change, hmember, hnames, h⟩
    cases hmember with
    | skip hname hskip =>
      rw [hname]
      dsimp only
      rw [hskip]
      exact h
    | take hname htake =>
      have hgiven : ¬ given.contains name = true := fun hmem =>
        List.singleton_disjoint.mp hnames (List.contains_iff_mem.mp hmem)
      rw [hname]
      dsimp only
      rw [if_neg hgiven, htake]
      exact h

theorem requireFields_eq_ok_iff {given : List String} :
    requireFields given fields = .ok () ↔ ∀ f ∈ fields, f.required = true → f.name ∈ given := by
  induction fields with
  | nil => exact ⟨fun _ _ h => absurd h List.not_mem_nil, fun _ => rfl⟩
  | cons f fields ih =>
    rw [requireFields, List.forall_mem_cons, ← ih]
    cases hmissing : f.required && !given.contains f.name with
    | true =>
      rw [Bool.and_eq_true, Bool.not_eq_true', ← Bool.not_eq_true,
        List.contains_iff_mem] at hmissing
      exact ⟨(fun h => by cases h), fun h => absurd (h.1 hmissing.1) hmissing.2⟩
    | false =>
      rw [if_neg Bool.false_ne_true]
      refine (and_iff_right fun hrequired => ?_).symm
      rwa [hrequired, Bool.true_and, Bool.not_eq_false', List.contains_iff_mem] at hmissing

theorem TakesMember.nodup {m : Option String × Draft} {names : List String} {change : α → α}
    (h : TakesMember fields m names change) : names.Nodup := by
  cases h with
  | skip => exact List.nodup_nil
  | take => exact List.nodup_singleton _

/-- Members are read if each gives something, no name is given twice and no required one is
missing. -/
theorem readMembers_eq_ok_iff {members : List (Option String × Draft)} {given : List String}
    {r s : α} :
    readMembers fields none members given r = .ok s ↔
      ∃ names change, TakesMembers fields members names change ∧ names.Nodup ∧
        names.Disjoint given ∧
        (∀ f ∈ fields, f.required = true → f.name ∈ names ++ given) ∧ s = change r := by
  induction members generalizing given r with
  | nil =>
    rw [readMembers]
    constructor
    · intro h
      simp only [passEnd, ok_bind, bind_eq_ok_iff] at h
      obtain ⟨⟨⟩, hrequired, h⟩ := h
      cases h
      exact ⟨[], id, .nil, .nil, List.disjoint_nil_left _, requireFields_eq_ok_iff.mp hrequired,
        rfl⟩
    · rintro ⟨_, _, ⟨⟩, -, -, hrequired, rfl⟩
      rw [List.nil_append] at hrequired
      rw [requireFields_eq_ok_iff.mpr hrequired]
      rfl
  | cons m members ih =>
    -- The names of the first member are given when the others are read.
    have hgiven : ∀ names names' : List String,
        names'.Disjoint (names ++ given) ↔ names.Disjoint names' ∧ names'.Disjoint given :=
      fun names names' => by rw [List.disjoint_append_right, List.disjoint_comm]
    have hmem : ∀ {names names' : List String} {name : String},
        name ∈ names' ++ (names ++ given) ↔ name ∈ names ++ names' ++ given := by
      intro names names' name
      simp only [List.mem_append]
      tauto
    rw [readMembers_cons_eq_ok_iff]
    constructor
    · rintro ⟨names, change, hmember, hnames, h⟩
      obtain ⟨names', change', hmembers, hnodup, hdisjoint, hrequired, rfl⟩ := ih.mp h
      obtain ⟨hnew, hold⟩ := (hgiven names names').mp hdisjoint
      exact ⟨names ++ names', change' ∘ change, .cons hmember hmembers,
        List.nodup_append'.mpr ⟨hmember.nodup, hnodup, hnew⟩,
        List.disjoint_append_left.mpr ⟨hnames, hold⟩,
        fun f hf hreq => hmem.mp (hrequired f hf hreq), rfl⟩
    · rintro ⟨_, _, hmembers, hnodup, hdisjoint, hrequired, rfl⟩
      cases hmembers with
      | @cons _ _ names names' change change' hmember hmembers =>
        obtain ⟨-, hnodup, hnew⟩ := List.nodup_append'.mp hnodup
        obtain ⟨hnames, hold⟩ := List.disjoint_append_left.mp hdisjoint
        exact ⟨names, change, hmember, hnames, ih.mpr ⟨names', change', hmembers, hnodup,
          (hgiven names names').mpr ⟨hnew, hold⟩,
          fun f hf hreq => hmem.mpr (hrequired f hf hreq), rfl⟩⟩

/-! #### Members in another order -/

theorem name_of_find? {name : String} {f : Field α}
    (h : fields.find? (fun f => f.name == name) = some f) : f.name = name := by
  have hname := List.find?_some h
  exact beq_iff_eq.mp hname

/-- Two members that give different names may change places. -/
theorem TakesMember.comp_comm (hapart : fields.Pairwise Field.Apart)
    {m m' : Option String × Draft} {names names' : List String} {change change' : α → α}
    (h : TakesMember fields m names change) (h' : TakesMember fields m' names' change')
    (hnames : names.Disjoint names') : change' ∘ change = change ∘ change' := by
  cases h with
  | skip => rfl
  | @take name _ f _ hname htake =>
    cases h' with
    | skip => rfl
    | @take name' _ g _ hname' htake' =>
      have hne : f ≠ g := by
        rintro rfl
        exact hnames List.mem_cons_self
          (List.mem_singleton.mpr ((name_of_find? hname).symm.trans (name_of_find? hname')))
      have hsymm : Std.Symm (Field.Apart (α := α)) := ⟨fun f g h d e c c' hc hc' r =>
        (h e d c' c hc' hc r).symm⟩
      have hapart := hapart.forall (List.mem_of_find?_eq_some hname)
        (List.mem_of_find?_eq_some hname') hne
      funext r
      exact (hapart _ _ change change' htake htake' r).symm

/-- **The members of a record may come in any order.** -/
theorem TakesMembers.perm (hapart : fields.Pairwise Field.Apart)
    {members members' : List (Option String × Draft)} (hperm : members.Perm members')
    {names : List String} {change : α → α} (h : TakesMembers fields members names change)
    (hnodup : names.Nodup) :
    ∃ names', names.Perm names' ∧ TakesMembers fields members' names' change := by
  induction hperm generalizing names change with
  | nil => exact ⟨names, .refl _, h⟩
  | cons m _ ih =>
    cases h with
    | @cons _ _ names names' change change' hmember hmembers =>
      obtain ⟨names'', hnames, hmembers'⟩ := ih hmembers (List.nodup_append'.mp hnodup).2.1
      exact ⟨names ++ names'', hnames.append_left names, .cons hmember hmembers'⟩
  | swap m m' l =>
    cases h with
    | @cons _ _ names rest change change' hmember hmembers =>
      cases hmembers with
      | @cons _ _ names' names'' change' change'' hmember' hmembers =>
        have hdisjoint := (List.disjoint_append_right.mp (List.nodup_append'.mp hnodup).2.2).1
        refine ⟨names' ++ (names ++ names''), ?_, ?_⟩
        · rw [← List.append_assoc, ← List.append_assoc]
          exact List.perm_append_comm.append_right names''
        · have hcomm := hmember.comp_comm hapart hmember' hdisjoint
          rw [Function.comp_assoc, hcomm, ← Function.comp_assoc]
          exact .cons hmember' (.cons hmember hmembers)
  | trans _ _ ih ih' =>
    obtain ⟨names', hnames, h'⟩ := ih h hnodup
    obtain ⟨names'', hnames', h''⟩ := ih' h' (hnames.nodup_iff.mp hnodup)
    exact ⟨names'', hnames.trans hnames', h''⟩

/-- Added members change nothing. -/
theorem TakesMembers.append_left {added members : List (Option String × Draft)}
    {names : List String} {change : α → α} (hadded : F.Adds p added)
    (hknows : ∀ name ∈ fields.map Field.name, F.knows p name = true)
    (h : TakesMembers fields members names change) :
    TakesMembers fields (added ++ members) names change := by
  induction added with
  | nil => exact h
  | cons m added ih =>
    obtain ⟨_, value⟩ := m
    obtain ⟨⟨name, rfl, hname⟩, hvalue⟩ := hadded _ List.mem_cons_self
    have hrest := ih fun m hm => hadded m (List.mem_cons_of_mem _ hm)
    have hnone : fields.find? (fun f => f.name == name) = none := by
      refine List.find?_eq_none.mpr fun f hf hfound => ?_
      have hknown := hknows f.name (List.mem_map_of_mem hf)
      rw [beq_iff_eq.mp hfound, hname] at hknown
      cases hknown
    exact .cons (.skip hnone (Draft.skip_eq_ok hvalue)) hrest

/-! #### Values in another order -/

/-- Two records have the same fields, and the readers of each are steady at the place of its value.
The first of the fields has the given number. -/
inductive SteadyFields (F : Format P) (p : P) : ℕ → List (Field α) → List (Field α) → Prop where
  /-- There are none. -/
  | nil {i : ℕ} : SteadyFields F p i [] []
  /-- One more.  Its value stands at the same place in an object and in an array. -/
  | cons {β : Type} {i : ℕ} {name : String} {required : Bool} {read read' : Reader β}
      {set : β → α → α} {fields fields' : List (Field α)} (hunder : F.under p name = F.item p i)
      (h : Steady F (F.item p i) read read') (hrest : SteadyFields F p (i + 1) fields fields') :
      SteadyFields F p i (.of name required read set :: fields)
        (.of name required read' set :: fields')

theorem Field.take_of_steady {β : Type} {name : String} {required : Bool} {read read' : Reader β}
    {set : β → α → α} {d d' : Draft} {change : α → α} (h : Steady F p read read')
    (hd : Rearranged F p d d') (hdistinct : d.distinct = true)
    (hchange : (Field.of name required read set).take d = .ok change) :
    (Field.of name required read' set).take d' = .ok change := by
  simp only [Field.of, Except.map] at hchange
  split at hchange
  · cases hchange
  · rename_i v hv
    cases hchange
    exact congrArg (Except.map set) (h d d' v hd hdistinct hv)

theorem find?_of_cons {β : Type} {required : Bool} {read : Reader β} {set : β → α → α}
    (name name' : String) :
    (Field.of name' required read set :: fields).find? (fun f => f.name == name) =
      if name' = name then some (.of name' required read set)
      else fields.find? (fun f => f.name == name) := by
  rw [List.find?_cons]
  split
  · rename_i h
    rw [if_pos (show name' = name from beq_iff_eq.mp h)]
  · rename_i h
    rw [if_neg (show ¬ name' = name from beq_eq_false_iff_ne.mp h)]

namespace SteadyFields

variable {i : ℕ}

theorem find?_eq_none (h : SteadyFields F p i fields fields') {name : String}
    (hname : fields.find? (fun f => f.name == name) = none) :
    fields'.find? (fun f => f.name == name) = none := by
  induction h with
  | nil => rfl
  | cons _ _ _ ih =>
    rw [find?_of_cons] at hname ⊢
    split at hname
    · cases hname
    · rename_i hne
      rw [if_neg hne]
      exact ih hname

theorem exists_find? (h : SteadyFields F p i fields fields') {name : String} {f : Field α}
    (hname : fields.find? (fun f => f.name == name) = some f) {d d' : Draft} {change : α → α}
    (hd : Rearranged F (F.under p name) d d') (hdistinct : d.distinct = true)
    (htake : f.take d = .ok change) :
    ∃ f', fields'.find? (fun f => f.name == name) = some f' ∧ f'.take d' = .ok change := by
  induction h with
  | nil => cases hname
  | @cons _ _ name' _ _ _ _ _ _ hunder hsteady _ ih =>
    rw [find?_of_cons] at hname ⊢
    split at hname
    · rename_i heq
      subst heq
      cases hname
      rw [if_pos rfl]
      rw [hunder] at hd
      exact ⟨_, rfl, Field.take_of_steady hsteady hd hdistinct htake⟩
    · rename_i hne
      rw [if_neg hne]
      exact ih hname

theorem takesMembers (h : SteadyFields F p i fields fields')
    {members members' : List (Option String × Draft)}
    (hmembers : RearrangedMembers F p members members')
    (hdistinct : distinctMembers members = true) {names : List String} {change : α → α}
    (htakes : TakesMembers fields members names change) :
    TakesMembers fields' members' names change := by
  induction htakes generalizing members' with
  | nil =>
    cases hmembers
    exact .nil
  | cons hmember _ ih =>
    cases hmembers with
    | cons hvalue hrest =>
      obtain ⟨hd, hds⟩ := (Bool.and_eq_true ..).mp hdistinct
      refine .cons ?_ (ih hrest hds)
      cases hmember with
      | skip hname => exact .skip (h.find?_eq_none hname) hvalue.skip_eq_ok
      | take hname htake =>
        obtain ⟨f', hname', htake'⟩ := h.exists_find? hname hvalue hd htake
        exact .take hname' htake'

theorem required (h : SteadyFields F p i fields fields') {names : List String}
    (hrequired : ∀ f ∈ fields, f.required = true → f.name ∈ names) :
    ∀ f ∈ fields', f.required = true → f.name ∈ names := by
  induction h with
  | nil => exact hrequired
  | cons _ _ _ ih =>
    rw [List.forall_mem_cons] at hrequired ⊢
    exact ⟨hrequired.1, ih hrequired.2⟩

theorem requireItems {record record' : Record α} (h : SteadyFields F p i fields fields')
    {length : ℕ} (hrequired : Json.requireItems record length fields = .ok ()) :
    Json.requireItems record' length fields' = .ok () := by
  induction h generalizing length with
  | nil => rfl
  | cons _ _ _ ih =>
    rw [Json.requireItems] at hrequired ⊢
    split at hrequired
    · cases hrequired
    · rename_i hnot
      exact (if_neg hnot).trans (ih hrequired)

theorem readPositions {record record' : Record α} (h : SteadyFields F p i fields fields')
    {items items' : List Draft} (hitems : RearrangedItems F p i items items')
    (hdistinct : distinctItems items = true) {done : ℕ} {r s : α}
    (hs : Json.readPositions record none done fields items r = .ok s) :
    Json.readPositions record' none done fields' items' r = .ok s := by
  induction h generalizing items items' done r with
  | nil =>
    cases hitems with
    | nil => exact hs
    | cons => cases hs
  | cons hunder hsteady hrest ih =>
    cases hitems with
    | nil =>
      simp only [Json.readPositions, bind_eq_ok_iff] at hs ⊢
      obtain ⟨-, -, ⟨⟩, hrequired, hs⟩ := hs
      exact ⟨(), rfl, (), (SteadyFields.cons hunder hsteady hrest).requireItems hrequired, hs⟩
    | cons hitem hitems =>
      obtain ⟨hd, hds⟩ := (Bool.and_eq_true ..).mp hdistinct
      simp only [Json.readPositions, bind_eq_ok_iff] at hs ⊢
      obtain ⟨change, hchange, hs⟩ := hs
      exact ⟨change, Field.take_of_steady hsteady hitem hd hchange, ih hitems hds hs⟩

end SteadyFields

/-- **A record is read the same, in whatever order its members come.** -/
theorem steady_record {record record' : Record α} (hblank : record'.blank = record.blank)
    (hfields : SteadyFields F p 0 record.fields record'.fields)
    (hapart : record'.fields.Pairwise Field.Apart)
    (hknows : ∀ name ∈ record'.fields.map Field.name, F.knows p name = true) :
    Steady F p record.read record'.read := by
  intro d d' x hd hdistinct hx
  cases hd with
  | array hitems =>
    rw [Record.read, hblank]
    exact hfields.readPositions hitems hdistinct hx
  | object hmembers hadded hperm =>
    obtain ⟨names, change, htakes, hnodup, -, hrequired, rfl⟩ := readMembers_eq_ok_iff.mp hx
    have hkept := hfields.takesMembers hmembers ((Bool.and_eq_true ..).mp hdistinct).2 htakes
    obtain ⟨names', hnames, htakes'⟩ :=
      (hkept.append_left hadded hknows).perm hapart hperm hnodup
    have hrequired' := hfields.required fun f hf hreq => by
      have := hrequired f hf hreq
      rwa [List.append_nil] at this
    rw [← hblank]
    refine readMembers_eq_ok_iff.mpr ⟨names', change, htakes', hnames.nodup_iff.mp hnodup,
      List.disjoint_nil_right _, fun f hf hreq => ?_, rfl⟩
    rw [List.append_nil]
    exact hnames.mem_iff.mp (hrequired' f hf hreq)
  | null | boolean | number | text => cases hx

/-! ## Texts -/

variable {d : Draft} {text text' : String} {x : α}

/-- A text that is read is one value and nothing more. -/
theorem ended_of_readFrom (hx : readFrom read text = .ok x) : (Draft.ofText text).2 = true := by
  unfold readFrom at hx
  dsimp only at hx
  rw [bind_eq_ok_iff] at hx
  obtain ⟨y, -, hx⟩ := hx
  split at hx
  · assumption
  · cases hx

/-- What is read from a text is read from every text that has its members rearranged. -/
theorem readFrom_of_rearranged (h : Steady F p read read')
    (hdistinct : (Draft.ofText text).1.distinct = true)
    (hd : Rearranged F p (Draft.ofText text).1 d) (htext' : Draft.ofText text' = (d, true))
    (hx : readFrom read text = .ok x) : readFrom read' text' = .ok x := by
  unfold readFrom at hx ⊢
  rw [htext']
  dsimp only at hx ⊢
  rw [bind_eq_ok_iff] at hx
  obtain ⟨y, hy, hx⟩ := hx
  split at hx
  · cases hx
    rw [h _ _ x hd hdistinct hy]
    rfl
  · cases hx

end Json

end BlockSteps

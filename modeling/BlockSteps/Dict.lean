/-!
# Values under names, in name order

Fields of a block, parameters of a step, inputs of a block and the hook table are all the same
thing: at most one value under each name, written out in the order of the names.  `Dict α` is
that thing as **finite data**, a list of entries whose names increase strictly.

**Why a sorted list and not a search tree.**  These dictionaries hold a handful of entries, and
two of them are compared for equality wherever a document is read back.  A strictly sorted list
is determined by its look-ups (`Dict.ext`), so equality of dictionaries is equality of what they
say; the shape of a balanced tree would depend on the order of the insertions.

The order on names is the order of their code points, which is also the order of their UTF-8
bytes.
-/

namespace BlockSteps

universe u v

/-- At most one value under each name, in strictly increasing order of the names. -/
structure Dict (α : Type u) where
  /-- The entries, smallest name first. -/
  entries : List (String × α)
  /-- No name occurs twice and the names increase. -/
  increasing : entries.Pairwise (fun p q => p.1 < q.1)

namespace Dict

variable {α : Type u} {β : Type v}

/-- Two dictionaries with the same entries are the same: the order condition carries no data. -/
@[ext] theorem ext_entries {d e : Dict α} (h : d.entries = e.entries) : d = e := by
  cases d; cases e; cases h; rfl

instance [BEq α] : BEq (Dict α) := ⟨fun d e => d.entries == e.entries⟩

instance [DecidableEq α] : DecidableEq (Dict α) := fun d e =>
  if h : d.entries = e.entries then isTrue (ext_entries h)
  else isFalse fun he => h (congrArg entries he)

instance [Repr α] : Repr (Dict α) := ⟨fun d n => reprPrec d.entries n⟩

/-- The dictionary without entries. -/
def empty : Dict α := ⟨[], List.Pairwise.nil⟩

instance : EmptyCollection (Dict α) := ⟨empty⟩

instance : Inhabited (Dict α) := ⟨empty⟩

/-! ## Inserting

`place` works on bare lists, because the nested blocks of a saved workspace keep their inputs as
such a list; `insert` is `place` with the order condition carried along. -/

/-- Put `value` under `name`, in place of what was there. -/
def place (name : String) (value : α) : List (String × α) → List (String × α)
  | [] => [(name, value)]
  | (n, v) :: rest =>
    if name < n then (name, value) :: (n, v) :: rest
    else if name = n then (name, value) :: rest
    else (n, v) :: place name value rest

theorem mem_place {name : String} {value : α} {p : String × α} :
    ∀ {l : List (String × α)}, p ∈ place name value l → p = (name, value) ∨ p ∈ l
  | [], h => by simpa [place] using h
  | (n, v) :: rest, h => by
    unfold place at h
    split at h
    · simpa using h
    · split at h
      · rcases List.mem_cons.mp h with h | h
        · exact .inl h
        · exact .inr (List.mem_cons_of_mem _ h)
      · rcases List.mem_cons.mp h with h | h
        · exact .inr (h ▸ List.mem_cons_self)
        · exact (mem_place h).imp id (List.mem_cons_of_mem _)

/-- Names compare one way or the other. -/
theorem lt_of_not_lt_of_ne {a b : String} (h : ¬ a < b) (hne : a ≠ b) : b < a := by
  apply Decidable.byContradiction
  intro hb
  exact hne (String.le_antisymm (String.not_lt.mp hb) (String.not_lt.mp h))

theorem pairwise_place {name : String} {value : α} :
    ∀ {l : List (String × α)}, l.Pairwise (fun p q => p.1 < q.1) →
      (place name value l).Pairwise (fun p q => p.1 < q.1)
  | [], _ => by simp [place]
  | (n, v) :: rest, h => by
    have hhead := (List.pairwise_cons.mp h).1
    have htail := (List.pairwise_cons.mp h).2
    unfold place
    split
    · rename_i hlt
      refine List.pairwise_cons.mpr ⟨fun p hp => ?_, h⟩
      rcases List.mem_cons.mp hp with rfl | hp
      · exact hlt
      · exact String.lt_trans hlt (hhead p hp)
    · rename_i hnlt
      split
      · rename_i heq
        subst heq
        exact List.pairwise_cons.mpr ⟨hhead, htail⟩
      · rename_i hne
        refine List.pairwise_cons.mpr ⟨fun p hp => ?_, pairwise_place htail⟩
        rcases mem_place hp with rfl | hp
        · exact lt_of_not_lt_of_ne hnlt hne
        · exact hhead p hp

/-- Put `value` under `name`, in place of what was there. -/
def insert (d : Dict α) (name : String) (value : α) : Dict α :=
  ⟨place name value d.entries, pairwise_place d.increasing⟩

/-- Put every entry of the list in, front to back: of two values under one name the later stays. -/
def insertAll (d : Dict α) (entries : List (String × α)) : Dict α :=
  entries.foldl (fun acc p => acc.insert p.1 p.2) d

/-- The dictionary of a list of entries: of two values under one name the later stays. -/
def ofList (entries : List (String × α)) : Dict α := empty.insertAll entries

/-- The entries of both, those of the second in place of those of the first. -/
def override (d e : Dict α) : Dict α := d.insertAll e.entries

/-! ## Looking up -/

/-- The value that stands under `name` in a list of entries. -/
def find? (name : String) : List (String × α) → Option α
  | [] => none
  | (n, v) :: rest => if name = n then some v else find? name rest

/-- The value under `name`, if there is one. -/
def get? (d : Dict α) (name : String) : Option α := find? name d.entries

/-- The names that have a value, in order. -/
def names (d : Dict α) : List String := d.entries.map Prod.fst

/-- The values, in the order of their names. -/
def values (d : Dict α) : List α := d.entries.map Prod.snd

/-- Whether there is no entry. -/
def isEmpty (d : Dict α) : Bool := d.entries.isEmpty

/-- The same names with each value replaced. -/
def map (f : α → β) (d : Dict α) : Dict β :=
  ⟨d.entries.map fun p => (p.1, f p.2), by
    rw [List.pairwise_map]
    exact d.increasing⟩

theorem mem_of_find? {name : String} {value : α} :
    ∀ {l : List (String × α)}, find? name l = some value → (name, value) ∈ l
  | (n, v) :: rest, h => by
    rw [find?] at h
    split at h
    · rename_i heq
      obtain rfl := Option.some.inj h
      subst heq
      exact List.mem_cons_self
    · exact List.mem_cons_of_mem _ (mem_of_find? h)

theorem find?_of_mem {name : String} {value : α} :
    ∀ {l : List (String × α)}, l.Pairwise (fun p q => p.1 < q.1) → (name, value) ∈ l →
      find? name l = some value
  | (n, v) :: rest, hl, h => by
    have hhead := (List.pairwise_cons.mp hl).1
    rcases List.mem_cons.mp h with h | h
    · cases h
      exact if_pos rfl
    · have hne : name ≠ n := fun he => String.lt_irrefl n (he ▸ hhead (name, value) h)
      rw [find?, if_neg hne]
      exact find?_of_mem (List.pairwise_cons.mp hl).2 h

/-- A value stands under a name exactly if the two are an entry. -/
theorem get?_eq_some_iff {d : Dict α} {name : String} {value : α} :
    d.get? name = some value ↔ (name, value) ∈ d.entries :=
  ⟨mem_of_find?, find?_of_mem d.increasing⟩

/-- The values are what stands under some name. -/
theorem mem_values_iff {d : Dict α} {value : α} :
    value ∈ d.values ↔ ∃ name, d.get? name = some value := by
  simp only [get?_eq_some_iff, values, List.mem_map, Prod.exists, exists_eq_right]

/-- What stands under a name is one of the values. -/
theorem mem_values_of_get? {d : Dict α} {name : String} {value : α}
    (h : d.get? name = some value) : value ∈ d.values :=
  List.mem_map.mpr ⟨(name, value), mem_of_find? h, rfl⟩

@[simp] theorem entries_empty : (empty : Dict α).entries = [] := rfl

@[simp] theorem get?_empty (name : String) : (empty : Dict α).get? name = none := rfl

@[simp] theorem insertAll_nil (d : Dict α) : d.insertAll [] = d := rfl

@[simp] theorem insertAll_cons (d : Dict α) (p : String × α) (rest : List (String × α)) :
    d.insertAll (p :: rest) = (d.insert p.1 p.2).insertAll rest := rfl

theorem insertAll_append (d : Dict α) (xs ys : List (String × α)) :
    d.insertAll (xs ++ ys) = (d.insertAll xs).insertAll ys := by
  simp [insertAll, List.foldl_append]

@[simp] theorem override_empty (d : Dict α) : d.override empty = d := rfl

theorem find?_place (name : String) (value : α) (other : String) :
    ∀ l : List (String × α), l.Pairwise (fun p q => p.1 < q.1) →
      find? other (place name value l) = if other = name then some value else find? other l
  | [], _ => by
    by_cases h : other = name <;> simp [place, find?, h]
  | (n, v) :: rest, h => by
    have ih := find?_place name value other rest (List.pairwise_cons.mp h).2
    unfold place
    split
    · by_cases ho : other = name <;> simp [find?, ho]
    · split
      · rename_i heq
        subst heq
        by_cases ho : other = name <;> simp [find?, ho]
      · rename_i hne
        by_cases hn : other = n
        · subst hn
          simp [find?, Ne.symm hne]
        · simp [find?, hn, ih]

/-- After an insertion a look-up finds the new value under its name and the old ones elsewhere. -/
theorem get?_insert (d : Dict α) (name : String) (value : α) (other : String) :
    (d.insert name value).get? other = if other = name then some value else d.get? other :=
  find?_place name value other d.entries d.increasing

/-- A name below every name of the list is not found in it. -/
theorem find?_eq_none_of_lt {name : String} :
    ∀ {l : List (String × α)}, (∀ p ∈ l, name < p.1) → find? name l = none
  | [], _ => rfl
  | (n, v) :: rest, h => by
    have hn : name < n := h (n, v) List.mem_cons_self
    have hne : name ≠ n := fun he => String.lt_irrefl n (he ▸ hn)
    have ih := find?_eq_none_of_lt (l := rest) fun p hp => h p (List.mem_cons_of_mem _ hp)
    simp [find?, hne, ih]

theorem entries_eq_of_find?_eq :
    ∀ {l m : List (String × α)}, l.Pairwise (fun p q => p.1 < q.1) →
      m.Pairwise (fun p q => p.1 < q.1) → (∀ name, find? name l = find? name m) → l = m
  | [], [], _, _, _ => rfl
  | [], (n, v) :: rest, _, _, h => by simpa [find?] using h n
  | (n, v) :: rest, [], _, _, h => by simpa [find?] using h n
  | (n, v) :: l, (n', v') :: m, hl, hm, h => by
    have hlt := (List.pairwise_cons.mp hl)
    have hmt := (List.pairwise_cons.mp hm)
    have hn : n = n' := by
      apply Decidable.byContradiction
      intro hne
      by_cases hlt' : n < n'
      · have h1 := h n
        rw [find?_eq_none_of_lt (l := (n', v') :: m)] at h1
        · simp [find?] at h1
        · intro p hp
          rcases List.mem_cons.mp hp with rfl | hp
          · exact hlt'
          · exact String.lt_trans hlt' (hmt.1 p hp)
      · have hgt : n' < n := lt_of_not_lt_of_ne hlt' hne
        have h1 := h n'
        rw [find?_eq_none_of_lt (l := (n, v) :: l)] at h1
        · simp [find?] at h1
        · intro p hp
          rcases List.mem_cons.mp hp with rfl | hp
          · exact hgt
          · exact String.lt_trans hgt (hlt.1 p hp)
    subst hn
    have hv : v = v' := by simpa [find?] using h n
    subst hv
    have htail : l = m := by
      refine entries_eq_of_find?_eq hlt.2 hmt.2 fun name => ?_
      by_cases hname : name = n
      · subst hname
        rw [find?_eq_none_of_lt hlt.1, find?_eq_none_of_lt hmt.1]
      · simpa [find?, hname] using h name
    rw [htail]

/-- A dictionary is determined by its look-ups. -/
theorem ext {d e : Dict α} (h : ∀ name, d.get? name = e.get? name) : d = e :=
  ext_entries (entries_eq_of_find?_eq d.increasing e.increasing h)

/-- Two insertions under different names commute. -/
theorem insert_comm (d : Dict α) {m n : String} (a b : α) (h : m ≠ n) :
    (d.insert m a).insert n b = (d.insert n b).insert m a := by
  apply ext
  intro name
  simp only [get?_insert]
  by_cases hm : name = m
  · subst hm
    simp [h]
  · simp [hm]

/-! ## Several entries at once -/

theorem get?_insertAll (name : String) :
    ∀ (l : List (String × α)) (d : Dict α), l.Pairwise (fun p q => p.1 < q.1) →
      (d.insertAll l).get? name = (find? name l).or (d.get? name)
  | [], _, _ => rfl
  | (n, v) :: rest, d, h => by
    have hhead := (List.pairwise_cons.mp h).1
    have htail := (List.pairwise_cons.mp h).2
    rw [insertAll_cons, get?_insertAll name rest (d.insert n v) htail, get?_insert]
    by_cases hname : name = n
    · subst hname
      rw [find?_eq_none_of_lt hhead]
      simp [find?]
    · simp [find?, hname]

/-- The second dictionary is asked first. -/
theorem get?_override (d e : Dict α) (name : String) :
    (d.override e).get? name = (e.get? name).or (d.get? name) :=
  get?_insertAll name e.entries d e.increasing

theorem get?_ofList {l : List (String × α)} (h : l.Pairwise (fun p q => p.1 < q.1))
    (name : String) : (ofList l).get? name = find? name l := by
  have := get?_insertAll name l empty h
  simpa [ofList] using this

/-- A list in strict order is the entries of its dictionary. -/
theorem entries_ofList {l : List (String × α)} (h : l.Pairwise (fun p q => p.1 < q.1)) :
    (ofList l).entries = l :=
  entries_eq_of_find?_eq (ofList l).increasing h (get?_ofList h)

theorem mem_entries_insertAll {p : String × α} :
    ∀ (l : List (String × α)) (d : Dict α), p ∈ (d.insertAll l).entries → p ∈ l ∨ p ∈ d.entries
  | [], _, h => .inr h
  | q :: rest, d, h => by
    rw [insertAll_cons] at h
    rcases mem_entries_insertAll rest (d.insert q.1 q.2) h with h | h
    · exact .inl (List.mem_cons_of_mem q h)
    · rcases mem_place h with rfl | h
      · exact .inl List.mem_cons_self
      · exact .inr h

/-- What is in the dictionary of a list is in the list. -/
theorem mem_entries_ofList {l : List (String × α)} {p : String × α}
    (h : p ∈ (ofList l).entries) : p ∈ l := by
  rcases mem_entries_insertAll l empty h with h | h
  · exact h
  · exact absurd h List.not_mem_nil

theorem find?_filter (pick : String → Bool) (name : String) (l : List (String × α)) :
    find? name (l.filter fun p => pick p.1) = if pick name then find? name l else none := by
  induction l with
  | nil => simp [find?]
  | cons p rest ih =>
    obtain ⟨n, v⟩ := p
    by_cases hname : name = n
    · subst hname
      by_cases hpick : pick name <;> simp [find?, hpick, ih]
    · by_cases hpick : pick n <;> simp [find?, hpick, hname, ih]

/-- Where a value is put depends on the names alone. -/
theorem place_map (f : α → β) (name : String) (value : α) (l : List (String × α)) :
    place name (f value) (l.map fun p => (p.1, f p.2)) =
      (place name value l).map fun p => (p.1, f p.2) := by
  induction l with
  | nil => rfl
  | cons p rest ih =>
    obtain ⟨n, v⟩ := p
    rw [List.map_cons, place, place, ih]
    split
    · rfl
    · split
      · rfl
      · rfl

theorem insertAll_map (f : α → β) (l : List (String × α)) (d : Dict α) :
    (d.map f).insertAll (l.map fun p => (p.1, f p.2)) = (d.insertAll l).map f := by
  induction l generalizing d with
  | nil => rfl
  | cons p rest ih =>
    have hinsert : (d.map f).insert p.1 (f p.2) = (d.insert p.1 p.2).map f :=
      ext_entries (place_map f p.1 p.2 d.entries)
    rw [List.map_cons, insertAll_cons, insertAll_cons, hinsert, ih]

/-- The names of a dictionary are those of its list, whatever the values are. -/
theorem names_ofList_map (f : α → β) (l : List (String × α)) :
    (ofList (l.map fun p => (p.1, f p.2))).names = (ofList l).names := by
  have h : ofList (l.map fun p => (p.1, f p.2)) = (ofList l).map f := insertAll_map f l empty
  rw [h]
  simp [names, map]

theorem find?_map (f : α → β) (name : String) (l : List (String × α)) :
    find? name (l.map fun p => (p.1, f p.2)) = (find? name l).map f := by
  induction l with
  | nil => rfl
  | cons p rest ih =>
    obtain ⟨n, v⟩ := p
    by_cases hname : name = n <;> simp [find?, hname, ih]

end Dict

end BlockSteps

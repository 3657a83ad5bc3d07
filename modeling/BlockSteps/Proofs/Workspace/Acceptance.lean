import Mathlib
import BlockSteps.Proofs.Workspace.Arranged

/-!
# Which saved workspaces are loaded

Loading walks the retained blocks and makes three checks at three moments: the type and the fields
of a block before anything attached to it is looked at, its id only after its inputs were inserted.
The first check that fails ends the walk.  Whether one fails does not depend on these moments, and
which one it is was a matter of order only (`CompileError.BlamedOn`).

**What is looked at.**  `SavedBlock.retainedBlocks` lists the blocks that are reached from a block
through what its connections keep, a block that is reached on two ways twice.  Of each of them the
checks read what is written on the block itself, its `Label`.

**The text of a field.**  A field that is no literal is reported as text.  Besides being what the
writer writes, this text has no blanks outside strings, and reading it gives the value of the field
(`Json.IsCompactTextOf`).  It takes a value that a reader can give, and the fields of saved blocks
are such values (`SavedBlock.canonical_of_ofText`).

**The invariant.**  While the walk is on its way, the ids of the workspace are those of the labels
that it has passed.  If it fails at a tree, then for something that is true of the labels passed so
far together with those of the tree (`blamedOn_of_flatten`).

**Main statement.**  `ofText_accepts_iff`: in either order, a text is loaded exactly if all labels
are valid and all ids differ, and the error is true otherwise.  Shadows under a real block do not
enter, as they are not retained; they may be taken away or be replaced by others.
-/

namespace BlockSteps

/-! ## Labels -/

/-- The value is a number, a text or a truth value. -/
def Json.IsLiteral : Json → Prop
  | .integer _ | .real _ | .text _ | .boolean _ => True
  | .null | .array _ | .object _ => False

theorem FieldValue.exists_ofJson?_iff {j : Json} :
    (∃ v, FieldValue.ofJson? j = some v) ↔ j.IsLiteral := by
  cases j <;> simp [FieldValue.ofJson?, Json.IsLiteral]

/-- What is written on a block itself. -/
structure Label where
  /-- The tag of the kind. -/
  type : String
  /-- The id. -/
  id : BlockId
  /-- The fields, not yet looked at. -/
  fields : Dict Json

/-- The type is the tag of a kind, and the fields are literals. -/
structure Label.Valid (l : Label) : Prop where
  /-- The type is registered. -/
  registered : ∃ k : Kind, k.tag = l.type
  /-- Every field is a number, a text or a truth value. -/
  literal : ∀ name v, l.fields.get? name = some v → v.IsLiteral

/-- The fields hold values that a reader can give. -/
def Label.Canonical (l : Label) : Prop := ∀ p ∈ l.fields.entries, p.2.Canonical

/-- What the error says is true of blocks with these labels. -/
def CompileError.BlamedOn (labels : List Label) : CompileError → Prop
  | .unknownBlockType type id =>
    ∃ l ∈ labels, l.id = id ∧ l.type = type ∧ ∀ k : Kind, k.tag ≠ type
  | .malformedLiteral id field value =>
    ∃ l ∈ labels, l.id = id ∧
      ∃ v, l.fields.get? field = some v ∧ ¬ v.IsLiteral ∧ Json.IsCompactTextOf value v
  | .duplicateBlockId id => 2 ≤ (labels.map Label.id).count id
  | .nonFiniteValue _ _ | .danglingReference _ _ | .expectedValueBlock _ _
  | .stepLimitExceeded _ _ => False

/-- What is true of some blocks is true of these among others. -/
theorem CompileError.BlamedOn.mono {labels more : List Label} {e : CompileError}
    (h : labels.Subperm more) (he : e.BlamedOn labels) : e.BlamedOn more := by
  cases e with
  | unknownBlockType type id =>
    obtain ⟨l, hl, hid, htype⟩ := he
    exact ⟨l, h.subset hl, hid, htype⟩
  | malformedLiteral id field value =>
    obtain ⟨l, hl, hid, hvalue⟩ := he
    exact ⟨l, h.subset hl, hid, hvalue⟩
  | duplicateBlockId id =>
    obtain ⟨others, hperm, hsublist⟩ := h
    rw [BlamedOn, ← (hperm.map Label.id).count_eq id] at he
    exact Nat.le_trans he ((hsublist.map Label.id).count_le id)
  | nonFiniteValue block slot => exact he
  | danglingReference origin target => exact he
  | expectedValueBlock block type => exact he
  | stepLimitExceeded limit block => exact he

/-! ## What flattening checks -/

/-- The label of the block that a tree begins with. -/
def Tree.label (t : Tree) : Label := ⟨t.type, t.id, t.fields⟩

theorem Tree.kind_eq_ok_iff {t : Tree} {k : Kind} : t.kind = .ok k ↔ k.tag = t.type := by
  rw [← Kind.ofTag?_eq_some_iff]
  unfold Tree.kind
  cases Kind.ofTag? t.type with
  | none => simp
  | some j => simp

theorem Tree.kind_eq_error {t : Tree} {e : CompileError} (h : t.kind = .error e) :
    e = .unknownBlockType t.type t.id ∧ ∀ k : Kind, k.tag ≠ t.type := by
  unfold Tree.kind at h
  cases hk : Kind.ofTag? t.type with
  | none =>
    rw [hk] at h
    exact ⟨(Except.error.inj h).symm, Kind.ofTag?_eq_none_iff.mp hk⟩
  | some k =>
    rw [hk] at h
    cases h

theorem exists_literalFields_iff {id : BlockId} {fields : List (String × Json)} :
    (∃ literals, literalFields id fields = .ok literals) ↔ ∀ p ∈ fields, p.2.IsLiteral := by
  induction fields with
  | nil => exact ⟨fun _ => nofun, fun _ => ⟨[], rfl⟩⟩
  | cons p rest ih =>
    obtain ⟨name, value⟩ := p
    rw [List.forall_mem_cons, ← ih, ← FieldValue.exists_ofJson?_iff, literalFields]
    cases FieldValue.ofJson? value with
    | none => simp
    | some v =>
      simp only [bind_eq_ok_iff, Option.some.injEq, exists_eq', true_and]
      constructor
      · rintro ⟨_, literals, hliterals, -⟩
        exact ⟨literals, hliterals⟩
      · rintro ⟨literals, hliterals⟩
        exact ⟨_, literals, hliterals, rfl⟩

theorem literalFields_eq_error {id : BlockId} {fields : List (String × Json)} {e : CompileError}
    (h : literalFields id fields = .error e) :
    ∃ p ∈ fields, ¬ p.2.IsLiteral ∧ e = .malformedLiteral id p.1 p.2.compact := by
  induction fields with
  | nil => cases h
  | cons p rest ih =>
    obtain ⟨name, value⟩ := p
    rw [literalFields] at h
    cases hv : FieldValue.ofJson? value with
    | none =>
      rw [hv] at h
      refine ⟨(name, value), List.mem_cons_self, ?_, (Except.error.inj h).symm⟩
      intro hliteral
      obtain ⟨v, hv'⟩ := FieldValue.exists_ofJson?_iff.mpr hliteral
      rw [hv'] at hv
      cases hv
    | some v =>
      rw [hv] at h
      obtain hrest | ⟨_, -, h⟩ := bind_eq_error_iff.mp h
      · obtain ⟨p, hp, hblame⟩ := ih hrest
        exact ⟨p, List.mem_cons_of_mem _ hp, hblame⟩
      · cases h

/-- A tree can be loaded exactly if its label is valid. -/
theorem Tree.exists_loads_iff {t : Tree} : (∃ b, t.Loads b) ↔ t.label.Valid := by
  have hfields : (∃ literals, literalFields t.id t.fields.entries = .ok literals) ↔
      ∀ name v, t.label.fields.get? name = some v → v.IsLiteral := by
    rw [exists_literalFields_iff]
    simp only [Dict.get?_eq_some_iff, Prod.forall]
    rfl
  constructor
  · rintro ⟨b, kind, literals, hkind, hliterals, -⟩
    exact ⟨⟨kind, kind_eq_ok_iff.mp hkind⟩, hfields.mp ⟨literals, hliterals⟩⟩
  · intro h
    obtain ⟨kind, hkind⟩ := h.registered
    obtain ⟨literals, hliterals⟩ := hfields.mpr h.literal
    exact ⟨_, kind, literals, kind_eq_ok_iff.mpr hkind, hliterals, rfl⟩

/-- Trees with valid labels can be loaded one by one. -/
theorem exists_loads_of_valid {ts : List Tree} (h : ∀ t ∈ ts, t.label.Valid) :
    ∃ bs, List.Forall₂ Tree.Loads ts bs := by
  induction ts with
  | nil => exact ⟨[], .nil⟩
  | cons t rest ih =>
    rw [List.forall_mem_cons] at h
    obtain ⟨b, hb⟩ := Tree.exists_loads_iff.mpr h.1
    obtain ⟨bs, hbs⟩ := ih h.2
    exact ⟨b :: bs, .cons hb hbs⟩

theorem map_id_of_loads {ts : List Tree} {bs : List Block} (h : List.Forall₂ Tree.Loads ts bs) :
    bs.map Block.id = ts.map Tree.id := by
  rw [← List.forall₂_eq_eq_eq, List.forall₂_map_left_iff, List.forall₂_map_right_iff]
  exact h.flip.imp fun _ _ hload => Tree.Loads.id_eq hload

/-- Trees can be flattened exactly if every label of the listing is valid and no two ids are the
same. -/
theorem exists_flattenAll_iff {ts : List Tree} :
    (∃ ws, flattenAll ts Workspace.empty = .ok ws) ↔
      (∀ t ∈ ts.flatMap Tree.listing, t.label.Valid) ∧
        ((ts.flatMap Tree.listing).map Tree.id).Nodup := by
  simp only [flattenAll_eq_ok_iff]
  generalize ts.flatMap Tree.listing = us
  constructor
  · rintro ⟨ws, bs, hloads, hinsert⟩
    obtain ⟨hnodup, -⟩ := Workspace.ofBlocks_eq_ok_iff.mp hinsert
    rw [map_id_of_loads hloads] at hnodup
    refine ⟨?_, hnodup⟩
    intro t ht
    obtain ⟨b, -, hb⟩ := exists_of_forall₂ hloads.flip ht
    exact Tree.exists_loads_iff.mp ⟨b, hb⟩
  · rintro ⟨hvalid, hnodup⟩
    obtain ⟨bs, hloads⟩ := exists_loads_of_valid hvalid
    rw [← map_id_of_loads hloads] at hnodup
    exact ⟨_, bs, hloads, Workspace.ofBlocks_eq_ok_iff.mpr ⟨hnodup, rfl⟩⟩

/-! ## What a failure says -/

section Blame

variable {ws ws' : Workspace} {passed : List Label} {e : CompileError}

theorem ids_of_takes {ts : List Tree} (h : ws.Takes ts ws') :
    ws'.ids = ws.ids ++ ts.map Tree.id := by
  obtain ⟨bs, hloads, hinsert⟩ := h
  obtain ⟨-, -, hblocks⟩ := Workspace.insertAll_eq_ok_iff.mp hinsert
  rw [← map_id_of_loads hloads]
  simp [Workspace.ids, hblocks]

/-- What was flattened is passed. -/
theorem ids_of_flattenAll {ts : List Tree} (hpassed : ws.ids = passed.map Label.id)
    (h : flattenAll ts ws = .ok ws') :
    ws'.ids = (passed ++ (ts.flatMap Tree.listing).map Tree.label).map Label.id := by
  rw [ids_of_takes (flattenAll_eq_ok_iff.mp h), hpassed, List.map_append, List.map_map]
  rfl

/-- A tree fails in five ways: by its type, its fields, its inputs, its id, or what comes next. -/
theorem Tree.flatten_eq_error {t : Tree} (h : t.flatten ws = .error e) :
    t.kind = .error e ∨ literalFields t.id t.fields.entries = .error e ∨
      flattenAll (t.inputs.map Prod.snd) ws = .error e ∨
      ∃ b inner, t.Loads b ∧ flattenAll (t.inputs.map Prod.snd) ws = .ok inner ∧
        (inner.insert b = .error e ∨
          ∃ mid, inner.insert b = .ok mid ∧ flattenAll t.next.toList mid = .error e) := by
  obtain ⟨type, id, fields, inputs, next⟩ := t
  rw [Tree.flatten] at h
  simp only [bind_eq_error_iff, flattenInputs_eq, flattenNext_eq] at h
  obtain h | ⟨kind, hkind, h | ⟨literals, hliterals, h | ⟨inner, hinner, h⟩⟩⟩ := h
  · exact .inl h
  · exact .inr (.inl h)
  · exact .inr (.inr (.inl h))
  · exact .inr (.inr (.inr ⟨_, inner, ⟨kind, literals, hkind, hliterals, rfl⟩, hinner, h⟩))

theorem Workspace.insert_eq_error {b : Block} (h : ws.insert b = .error e) :
    e = .duplicateBlockId b.id ∧ b.id ∈ ws.ids := by
  rw [insert_eq] at h
  split at h
  · rename_i hid
    exact ⟨(Except.error.inj h).symm, hid⟩
  · cases h

/-- If the failure of each of several trees is to be blamed on what was passed and the tree, then
the failure of them together is to be blamed on what was passed and all of them. -/
theorem blamedOn_of_flattenAll_of {ts : List Tree}
    (hts : ∀ t ∈ ts, ∀ (ws : Workspace) (passed : List Label), ws.ids = passed.map Label.id →
      t.flatten ws = .error e → e.BlamedOn (passed ++ t.listing.map Tree.label))
    (hpassed : ws.ids = passed.map Label.id) (h : flattenAll ts ws = .error e) :
    e.BlamedOn (passed ++ (ts.flatMap Tree.listing).map Tree.label) := by
  induction ts generalizing ws passed with
  | nil => cases h
  | cons t rest ih =>
    rw [List.forall_mem_cons] at hts
    rw [List.flatMap_cons, List.map_append, ← List.append_assoc]
    obtain h | ⟨mid, hmid, h⟩ := bind_eq_error_iff.mp h
    · exact (hts.1 ws passed hpassed h).mono (List.sublist_append_left _ _).subperm
    · apply ih hts.2 _ h
      rw [ids_of_takes ((Tree.flatten_eq_ok_iff_takes _ _).mp hmid), hpassed, List.map_append,
        List.map_map]
      rfl

/-- The labels of a tree stand in the order in which they are passed. -/
theorem Tree.label_listing (t : Tree) :
    t.listing.map label = ((t.inputs.map Prod.snd).flatMap listing).map label ++
      ([t.label] ++ (t.next.toList.flatMap listing).map label) := by
  rw [t.listing_eq, List.map_append, List.flatMap_map]
  rfl

/-- A failure at a tree is to be blamed on what was passed and on the tree, if the fields were
read. -/
theorem blamedOn_of_flatten {t : Tree} (hread : ∀ u ∈ t.listing, u.label.Canonical) :
    ∀ (ws : Workspace) (passed : List Label), ws.ids = passed.map Label.id →
      t.flatten ws = .error e → e.BlamedOn (passed ++ t.listing.map Tree.label) := by
  induction t using Tree.induction with
  | h t ih =>
    intro ws passed hpassed h
    have hself : t.label ∈ passed ++ t.listing.map Tree.label :=
      List.mem_append_right _ (List.mem_map_of_mem t.self_mem_listing)
    have hinputs : ∀ c ∈ t.inputs.map Prod.snd, c ∈ t.children := fun c =>
      List.mem_append_left _
    have hnext : ∀ c ∈ t.next.toList, c ∈ t.children := fun c => List.mem_append_right _
    have ih := fun c hc => ih c hc fun u hu => hread u (Tree.listing_subset_of_mem_children hc hu)
    obtain h | h | h | ⟨b, inner, hb, hinner, h⟩ := Tree.flatten_eq_error h
    · obtain ⟨rfl, htype⟩ := Tree.kind_eq_error h
      exact ⟨t.label, hself, rfl, rfl, htype⟩
    · obtain ⟨p, hp, hliteral, rfl⟩ := literalFields_eq_error h
      have hcanonical := hread t t.self_mem_listing p hp
      exact ⟨t.label, hself, rfl, p.2, Dict.get?_eq_some_iff.mpr hp, hliteral,
        hcanonical.isCompactTextOf⟩
    · have hblame := blamedOn_of_flattenAll_of (fun c hc => ih c (hinputs c hc)) hpassed h
      apply hblame.mono
      rw [t.label_listing]
      exact ((List.sublist_append_left _ _).append_left passed).subperm
    · have hpassed := ids_of_flattenAll hpassed hinner
      rw [t.label_listing, ← List.append_assoc, ← List.append_assoc]
      obtain h | ⟨mid, hmid, h⟩ := h
      · -- The id was passed before, and it is that of the tree.
        obtain ⟨rfl, hmem⟩ := Workspace.insert_eq_error h
        rw [hpassed, hb.id_eq] at hmem
        have htwice : (CompileError.duplicateBlockId t.id).BlamedOn
            (passed ++ ((t.inputs.map Prod.snd).flatMap Tree.listing).map Tree.label ++
              [t.label]) := by
          have honce := List.count_pos_iff.mpr hmem
          have hagain : ([t.label].map Label.id).count t.id = 1 := List.count_singleton_self
          rw [CompileError.BlamedOn, List.map_append, List.count_append]
          omega
        rw [hb.id_eq]
        exact htwice.mono (List.sublist_append_left _ _).subperm
      · apply blamedOn_of_flattenAll_of (fun c hc => ih c (hnext c hc)) _ h
        obtain ⟨_, rfl⟩ := Workspace.insert_eq_ok_iff.mp hmid
        rw [List.map_append, ← hpassed]
        simp [Workspace.ids, Tree.label, hb.id_eq]

theorem blamedOn_of_flattenAll {ts : List Tree}
    (hread : ∀ l ∈ (ts.flatMap Tree.listing).map Tree.label, l.Canonical)
    (h : flattenAll ts Workspace.empty = .error e) :
    e.BlamedOn ((ts.flatMap Tree.listing).map Tree.label) := by
  have hpassed : Workspace.empty.ids = ([] : List Label).map Label.id := rfl
  have htrees : ∀ t ∈ ts, ∀ u ∈ t.listing, u.label.Canonical := fun t ht u hu =>
    hread _ (List.mem_map_of_mem (List.mem_flatMap.mpr ⟨t, ht, hu⟩))
  simpa using blamedOn_of_flattenAll_of (fun t ht => blamedOn_of_flatten (htrees t ht)) hpassed h

end Blame

/-! ## Retained blocks -/

/-- The blocks that the connections of a block keep: those of its inputs, then the next one. -/
def SavedBlock.attached (b : SavedBlock) : List SavedBlock :=
  b.inputs.filterMap (fun p => p.2.kept) ++ (b.next.bind Connection.kept).toList

mutual

/-- A block and all that is reached from it through what connections keep, once for every way. -/
def SavedBlock.retainedBlocks : SavedBlock → List SavedBlock
  | ⟨type, id, x, y, fields, inputs, next⟩ =>
    ⟨type, id, x, y, fields, inputs, next⟩ :: (retainedInInputs inputs ++ retainedInNext next)

/-- What is reached from inputs. -/
def retainedInInputs : List (String × Connection SavedBlock) → List SavedBlock
  | [] => []
  | (_, ⟨some b, _⟩) :: rest => b.retainedBlocks ++ retainedInInputs rest
  | (_, ⟨none, some b⟩) :: rest => b.retainedBlocks ++ retainedInInputs rest
  | (_, ⟨none, none⟩) :: rest => retainedInInputs rest

/-- What is reached from what comes next. -/
def retainedInNext : Option (Connection SavedBlock) → List SavedBlock
  | none => []
  | some ⟨some b, _⟩ => b.retainedBlocks
  | some ⟨none, some b⟩ => b.retainedBlocks
  | some ⟨none, none⟩ => []

end

/-- The label of a saved block. -/
def SavedBlock.label (b : SavedBlock) : Label := ⟨b.type, b.id, b.fields⟩

theorem retainedInInputs_eq (inputs : List (String × Connection SavedBlock)) :
    retainedInInputs inputs =
      (inputs.filterMap fun p => p.2.kept).flatMap SavedBlock.retainedBlocks := by
  induction inputs with
  | nil => rfl
  | cons p rest ih =>
    obtain ⟨slot, block, shadow⟩ := p
    rcases block with _ | b
    · rcases shadow with _ | b
      · simp [retainedInInputs, Connection.kept, ih]
      · simp [retainedInInputs, Connection.kept, ih]
    · simp [retainedInInputs, Connection.kept, ih]

theorem retainedInNext_eq (next : Option (Connection SavedBlock)) :
    retainedInNext next =
      (next.bind Connection.kept).toList.flatMap SavedBlock.retainedBlocks := by
  rcases next with _ | ⟨block, shadow⟩
  · rfl
  · rcases block with _ | b
    · rcases shadow with _ | b
      · rfl
      · simp [retainedInNext, Connection.kept]
    · simp [retainedInNext, Connection.kept]

namespace SavedBlock

variable {b c : SavedBlock}

theorem retainedBlocks_eq (b : SavedBlock) :
    b.retainedBlocks = b :: b.attached.flatMap retainedBlocks := by
  obtain ⟨type, id, x, y, fields, inputs, next⟩ := b
  rw [retainedBlocks, retainedInInputs_eq, retainedInNext_eq, ← List.flatMap_append]
  rfl

theorem length_retainedBlocks_lt (h : c ∈ b.attached) :
    c.retainedBlocks.length < b.retainedBlocks.length := by
  have hle : c.retainedBlocks.length ≤ (b.attached.flatMap retainedBlocks).length := by
    rw [List.length_flatMap]
    exact List.le_sum_of_mem (List.mem_map_of_mem h)
  rw [b.retainedBlocks_eq, List.length_cons]
  omega

/-- What holds of a block as soon as it holds of the blocks attached to it holds of every block. -/
theorem induction {P : SavedBlock → Prop} (h : ∀ b : SavedBlock, (∀ c ∈ b.attached, P c) → P b)
    (b : SavedBlock) : P b := by
  induction hn : b.retainedBlocks.length using Nat.strong_induction_on generalizing b with
  | h n ih =>
    apply h
    intro c hc
    exact ih c.retainedBlocks.length (hn ▸ length_retainedBlocks_lt hc) c rfl

/-- The list of retained blocks has no others than those that are reached. -/
theorem mem_retainedBlocks_iff :
    c ∈ b.retainedBlocks ↔ Relation.ReflTransGen (fun b c => c ∈ b.attached) b c := by
  constructor
  · induction b using SavedBlock.induction with
    | h b ih =>
      intro hc
      rw [b.retainedBlocks_eq] at hc
      rcases List.mem_cons.mp hc with rfl | hc
      · exact .refl
      · obtain ⟨d, hd, hc⟩ := List.mem_flatMap.mp hc
        exact .head hd (ih d hd hc)
  · intro h
    induction h using Relation.ReflTransGen.head_induction_on with
    | refl =>
      rw [c.retainedBlocks_eq]
      exact List.mem_cons_self
    | @head b d hd _ ih =>
      rw [b.retainedBlocks_eq]
      exact List.mem_cons_of_mem _ (List.mem_flatMap.mpr ⟨d, hd, ih⟩)

theorem label_retained (b : SavedBlock) : b.retained.label = b.label := by
  rw [retaining_retained b]
  rfl

theorem children_retained (b : SavedBlock) : b.retained.children = b.attached.map retained := by
  rw [retaining_retained b, Tree.children, attached, List.map_append, List.map_filterMap,
    List.map_filterMap]
  congr 1
  · simp only [Option.map_map, Function.comp_def]
  · cases b.next.bind Connection.kept <;> rfl

/-- The fields of the retained blocks of a text were read. -/
theorem canonical_of_ofText {text : String} {saved : List SavedBlock}
    (h : SavedBlock.ofText text = .ok saved) :
    ∀ b ∈ saved.flatMap retainedBlocks, b.label.Canonical := by
  have hgives : Json.Gives SavedBlock.read fun b => ∀ c ∈ b.retainedBlocks, c.label.Canonical := by
    refine gives_of_readOver fun b hb c hc => ?_
    rw [b.retainedBlocks_eq] at hc
    rcases List.mem_cons.mp hc with rfl | hc
    · exact hb.fields
    · obtain ⟨d, hd, hc⟩ := List.mem_flatMap.mp hc
      rcases List.mem_append.mp hd with hd | hd
      · obtain ⟨p, hp, hd⟩ := List.mem_filterMap.mp hd
        exact hb.inputs p hp d hd c hc
      · obtain ⟨n, hn, hd⟩ := Option.bind_eq_some_iff.mp (Option.mem_toList.mp hd)
        exact hb.next n hn d hd c hc
  intro b hb
  obtain ⟨top, htop, hb⟩ := List.mem_flatMap.mp hb
  exact forall_of_ofText hgives h top htop b hb

/-- The labels of the retained blocks are those of the retained tree, in another order. -/
theorem label_retainedBlocks_perm (b : SavedBlock) :
    (b.retainedBlocks.map label).Perm (b.retained.listing.map Tree.label) := by
  induction b using SavedBlock.induction with
  | h b ih =>
    have hattached : (b.attached.flatMap retainedBlocks).map label =
        b.attached.flatMap fun c => c.retainedBlocks.map label := List.map_flatMap
    have hchildren : (b.retained.children.flatMap Tree.listing).map Tree.label =
        b.attached.flatMap fun c => c.retained.listing.map Tree.label := by
      rw [b.children_retained, List.flatMap_map, List.map_flatMap]
    calc b.retainedBlocks.map label
      _ = b.label :: b.attached.flatMap fun c => c.retainedBlocks.map label := by
        rw [b.retainedBlocks_eq, List.map_cons, hattached]
      _ |>.Perm (b.label :: b.attached.flatMap fun c => c.retained.listing.map Tree.label) :=
        .cons _ (List.Perm.flatMap_left _ ih)
      _ = (b.retained :: b.retained.children.flatMap Tree.listing).map Tree.label := by
        rw [List.map_cons, hchildren, label_retained]
      _ |>.Perm (b.retained.listing.map Tree.label) := (b.retained.listing_perm.map _).symm

end SavedBlock

/-- In either order the labels of the forest are those of the retained blocks. -/
theorem label_listing_perm (order : TopOrder) (saved : List SavedBlock) :
    ((((order.arrange saved).map SavedBlock.retained).flatMap Tree.listing).map Tree.label).Perm
      ((saved.flatMap SavedBlock.retainedBlocks).map SavedBlock.label) := by
  rw [List.flatMap_map, List.map_flatMap, List.map_flatMap]
  apply ((order.arrange_perm saved).flatMap_right _).trans
  apply List.Perm.flatMap_left
  intro b _
  exact b.label_retainedBlocks_perm.symm

/-! ## Shadows under real blocks -/

mutual

/-- A block without the shadows under real blocks, in itself and in all that is attached to it. -/
def SavedBlock.pruned : SavedBlock → SavedBlock
  | ⟨type, id, x, y, fields, inputs, next⟩ =>
    ⟨type, id, x, y, fields, prunedInputs inputs, prunedNext next⟩

/-- Inputs without the shadows under real blocks. -/
def prunedInputs : List (String × Connection SavedBlock) → List (String × Connection SavedBlock)
  | [] => []
  | (slot, ⟨some b, _⟩) :: rest => (slot, ⟨some b.pruned, none⟩) :: prunedInputs rest
  | (slot, ⟨none, some b⟩) :: rest => (slot, ⟨none, some b.pruned⟩) :: prunedInputs rest
  | (slot, ⟨none, none⟩) :: rest => (slot, ⟨none, none⟩) :: prunedInputs rest

/-- What comes next without the shadows under real blocks. -/
def prunedNext : Option (Connection SavedBlock) → Option (Connection SavedBlock)
  | none => none
  | some ⟨some b, _⟩ => some ⟨some b.pruned, none⟩
  | some ⟨none, some b⟩ => some ⟨none, some b.pruned⟩
  | some ⟨none, none⟩ => some ⟨none, none⟩

end

mutual

/-- The retained part of a block has none of these shadows. -/
theorem SavedBlock.retained_pruned : ∀ b : SavedBlock, b.pruned.retained = b.retained
  | ⟨type, id, x, y, fields, inputs, next⟩ => by
    simp only [SavedBlock.pruned, SavedBlock.retained, retainedInputs_pruned inputs,
      retainedNext_pruned next]

theorem retainedInputs_pruned :
    ∀ inputs, retainedInputs (prunedInputs inputs) = retainedInputs inputs
  | [] => by simp only [prunedInputs]
  | (slot, ⟨some b, _⟩) :: rest => by
    simp only [prunedInputs, retainedInputs, SavedBlock.retained_pruned b,
      retainedInputs_pruned rest]
  | (slot, ⟨none, some b⟩) :: rest => by
    simp only [prunedInputs, retainedInputs, SavedBlock.retained_pruned b,
      retainedInputs_pruned rest]
  | (slot, ⟨none, none⟩) :: rest => by
    simp only [prunedInputs, retainedInputs, retainedInputs_pruned rest]

theorem retainedNext_pruned : ∀ next, retainedNext (prunedNext next) = retainedNext next
  | none => by simp only [prunedNext]
  | some ⟨some b, _⟩ => by simp only [prunedNext, retainedNext, SavedBlock.retained_pruned b]
  | some ⟨none, some b⟩ => by simp only [prunedNext, retainedNext, SavedBlock.retained_pruned b]
  | some ⟨none, none⟩ => by simp only [prunedNext]

end

theorem SavedBlock.ranked_pruned (b : SavedBlock) : b.pruned.ranked = b.ranked := by
  have hrank : b.pruned.rank = b.rank := by
    cases b
    rw [pruned]
    rfl
  rw [ranked, ranked, hrank, b.retained_pruned]

namespace Workspace

/-- Saved blocks that differ in shadows under real blocks only are loaded alike. -/
theorem ofSaved_eq_of_pruned (order : TopOrder) {saved others : List SavedBlock}
    (h : saved.map SavedBlock.pruned = others.map SavedBlock.pruned) :
    ofSaved order saved = ofSaved order others := by
  have hranked : ∀ blocks : List SavedBlock, (blocks.map SavedBlock.pruned).map SavedBlock.ranked =
      blocks.map SavedBlock.ranked := by
    intro blocks
    rw [List.map_map]
    exact List.map_congr_left fun b _ => b.ranked_pruned
  have hsame : saved.map SavedBlock.ranked = others.map SavedBlock.ranked := by
    rw [← hranked saved, h, hranked others]
  rw [ofSaved, ofSaved, order.arrange_retained_eq hsame]

/-! ## Loading -/

variable {order : TopOrder} {text : String} {saved : List SavedBlock}

theorem exists_ofText_iff (hsaved : SavedBlock.ofText text = .ok saved) :
    (∃ ws, ofText order text = .ok ws) ↔
      (∀ b ∈ saved.flatMap SavedBlock.retainedBlocks, b.label.Valid) ∧
        ((saved.flatMap SavedBlock.retainedBlocks).map SavedBlock.id).Nodup := by
  have hperm := label_listing_perm order saved
  have hloads : (∃ ws, ofText order text = .ok ws) ↔ ∃ ws, ofSaved order saved = .ok ws := by
    simp only [ofText_eq_ok_iff, hsaved, Except.ok.injEq, exists_eq_left']
  have hids := (hperm.map Label.id).nodup_iff
  have hvalid : (∀ l ∈ (((order.arrange saved).map SavedBlock.retained).flatMap
      Tree.listing).map Tree.label, l.Valid) ↔
      ∀ l ∈ (saved.flatMap SavedBlock.retainedBlocks).map SavedBlock.label, l.Valid :=
    forall_congr' fun l => by rw [hperm.mem_iff]
  rw [List.map_map, List.map_map] at hids
  rw [List.forall_mem_map, List.forall_mem_map] at hvalid
  rw [hloads, ofSaved, exists_flattenAll_iff]
  exact and_congr hvalid hids

theorem blamedOn_of_ofText (hsaved : SavedBlock.ofText text = .ok saved) {e : LoadError}
    (h : ofText order text = .error e) :
    ∃ c, e = .invalid c ∧
      c.BlamedOn ((saved.flatMap SavedBlock.retainedBlocks).map SavedBlock.label) := by
  unfold ofText at h
  rw [hsaved] at h
  dsimp only at h
  cases hloaded : ofSaved order saved with
  | ok ws =>
    rw [hloaded] at h
    cases h
  | error c =>
    rw [hloaded] at h
    have hperm := label_listing_perm order saved
    have hread := SavedBlock.canonical_of_ofText hsaved
    rw [← List.forall_mem_map] at hread
    refine ⟨c, (Except.error.inj h).symm, ?_⟩
    exact (blamedOn_of_flattenAll (fun l hl => hread l (hperm.mem_iff.mp hl)) hloaded).mono
      hperm.subperm

/-- **Exactly the valid forests are loaded.**  Let a text be read as saved blocks, and let the
retained blocks be those that are reached from the list through inputs and next links, the real
block being taken over the shadow.  In either order the text is loaded exactly if every retained
block has a registered type and only numbers, texts and truth values in its fields, and no two
retained blocks share an id.  Otherwise the error is true of the retained blocks: it names one with
that type, which is not registered, or one with a field that is no literal, or an id that at least
two of them have.  For the field it gives a text without blanks outside strings, off which its value
is read.  A text that differs in shadows under real blocks only has the same outcome. -/
theorem ofText_accepts_iff (order : TopOrder) (hsaved : SavedBlock.ofText text = .ok saved) :
    (∀ b, b ∈ saved.flatMap SavedBlock.retainedBlocks ↔
      ∃ top ∈ saved, Relation.ReflTransGen (fun b c => c ∈ b.attached) top b) ∧
    ((∃ ws, ofText order text = .ok ws) ↔
      (∀ b ∈ saved.flatMap SavedBlock.retainedBlocks, b.label.Valid) ∧
        ((saved.flatMap SavedBlock.retainedBlocks).map SavedBlock.id).Nodup) ∧
    (∀ e, ofText order text = .error e → ∃ c, e = .invalid c ∧
      c.BlamedOn ((saved.flatMap SavedBlock.retainedBlocks).map SavedBlock.label)) ∧
    ∀ text' others, SavedBlock.ofText text' = .ok others →
      others.map SavedBlock.pruned = saved.map SavedBlock.pruned →
      ofText order text' = ofText order text := by
  refine ⟨?_, exists_ofText_iff hsaved, fun e => blamedOn_of_ofText hsaved, ?_⟩
  · intro b
    simp only [List.mem_flatMap, SavedBlock.mem_retainedBlocks_iff]
  · intro text' others hothers hpruned
    unfold ofText
    rw [hsaved, hothers]
    dsimp only
    rw [ofSaved_eq_of_pruned order hpruned]

/-- A block of an unknown type. -/
def strangerText : String := "\x7b\"blocks\": \x7b\"blocks\": [
  \x7b\"type\": \"sing\", \"id\": \"u\"\x7d]\x7d\x7d"

/-- A field that holds an object, with its members out of order and blanks in a string. -/
def nestedText : String := "\x7b\"blocks\": \x7b\"blocks\": [
  \x7b\"type\": \"math_number\", \"id\": \"n\", \"fields\":
    \x7b\"NUM\": \x7b\"b\": [1, -2], \"a\": \"x y\"\x7d\x7d\x7d]\x7d\x7d"

/-- Two blocks with one id. -/
def sameText : String := "\x7b\"blocks\": \x7b\"blocks\": [
  \x7b\"type\": \"wait_time_block\", \"id\": \"w\", \"next\": \x7b\"block\":
    \x7b\"type\": \"wait_time_block\", \"id\": \"w\"\x7d\x7d\x7d]\x7d\x7d"

/-- A shadow under a real block. -/
def shadedText : String := "\x7b\"blocks\": \x7b\"blocks\": [
  \x7b\"type\": \"wait_time_block\", \"id\": \"w\", \"inputs\": \x7b\"SECONDS\": \x7b
    \"block\": \x7b\"type\": \"math_number\", \"id\": \"n\"\x7d,
    \"shadow\": \x7b\"type\": \"sing\", \"id\": \"w\"\x7d\x7d\x7d\x7d]\x7d\x7d"

/-- The same without the shadow. -/
def bareText : String := "\x7b\"blocks\": \x7b\"blocks\": [
  \x7b\"type\": \"wait_time_block\", \"id\": \"w\", \"inputs\": \x7b\"SECONDS\": \x7b
    \"block\": \x7b\"type\": \"math_number\", \"id\": \"n\"\x7d\x7d\x7d\x7d]\x7d\x7d"

/-- The object, as it is read. -/
def nestedValue : Json :=
  .object [("a", .text "x y"), ("b", .array [.integer 1, .integer (-2)])]

theorem compact_nestedValue :
    nestedValue.compact = "\x7b\"a\":\"x y\",\"b\":[1,-2]\x7d" := by
  rw [← String.toList_inj, Json.compact, Json.toList_write]
  exact eq_of_beq (by decide +kernel)

set_option maxRecDepth 5000 in
theorem saved_strangerText :
    SavedBlock.ofText strangerText = .ok [⟨"sing", "u", 0, 0, {}, [], none⟩] := by
  rw [SavedBlock.ofText, Json.readFrom,
    Json.Draft.ofText_eq (show strangerText = String.ofList _ by exact rfl)]
  rfl

set_option maxRecDepth 5000 in
theorem saved_nestedText :
    SavedBlock.ofText nestedText =
      .ok [⟨"math_number", "n", 0, 0, .ofList [("NUM", nestedValue)], [], none⟩] := by
  rw [SavedBlock.ofText, Json.readFrom,
    Json.Draft.ofText_eq (show nestedText = String.ofList _ by exact rfl)]
  rfl

set_option maxRecDepth 5000 in
theorem saved_sameText :
    SavedBlock.ofText sameText =
      .ok [⟨"wait_time_block", "w", 0, 0, {}, [],
        some { block := some ⟨"wait_time_block", "w", 0, 0, {}, [], none⟩ }⟩] := by
  rw [SavedBlock.ofText, Json.readFrom,
    Json.Draft.ofText_eq (show sameText = String.ofList _ by exact rfl)]
  rfl

/-- The block of both, with what stands in the place of the shadow. -/
def shaded (shadow : Option SavedBlock) : SavedBlock :=
  ⟨"wait_time_block", "w", 0, 0, {}, [("SECONDS", {
      block := some ⟨"math_number", "n", 0, 0, {}, [], none⟩, shadow := shadow })], none⟩

set_option maxRecDepth 5000 in
theorem saved_shadedText :
    SavedBlock.ofText shadedText = .ok [shaded (some ⟨"sing", "w", 0, 0, {}, [], none⟩)] := by
  rw [SavedBlock.ofText, Json.readFrom,
    Json.Draft.ofText_eq (show shadedText = String.ofList _ by exact rfl)]
  rfl

set_option maxRecDepth 5000 in
theorem saved_bareText : SavedBlock.ofText bareText = .ok [shaded none] := by
  rw [SavedBlock.ofText, Json.readFrom,
    Json.Draft.ofText_eq (show bareText = String.ofList _ by exact rfl)]
  rfl

/-- One chain is refused in either order for what its tree is refused for. -/
theorem ofText_eq_error_of_single (order : TopOrder) {b : SavedBlock} {e : CompileError}
    (hsaved : SavedBlock.ofText text = .ok [b]) (he : flattenAll [b.retained] empty = .error e) :
    ofText order text = .error (.invalid e) := by
  rw [ofText, hsaved]
  dsimp only
  rw [ofSaved, TopOrder.arrange_singleton, List.map_singleton, he]

theorem ofText_nestedText (order : TopOrder) : ofText order nestedText =
    .error (.invalid (.malformedLiteral "n" "NUM" "\x7b\"a\":\"x y\",\"b\":[1,-2]\x7d")) := by
  rw [← compact_nestedValue]
  exact ofText_eq_error_of_single order saved_nestedText rfl

theorem ofText_strangerText (order : TopOrder) : ofText order strangerText =
    .error (.invalid (.unknownBlockType "sing" "u")) :=
  ofText_eq_error_of_single order saved_strangerText rfl

theorem ofText_sameText (order : TopOrder) : ofText order sameText =
    .error (.invalid (.duplicateBlockId "w")) :=
  ofText_eq_error_of_single order saved_sameText rfl

/-- Each case.  The five retained blocks of `twoChainsText` have valid labels and ids of their own,
though a shadow under a real block has an unknown type and an id that is taken.  Three texts are not
loaded, and the error says why; and a shadow under a real block may be there or not. -/
theorem ofText_accepts_iff_everyCase :
    (∃ saved, SavedBlock.ofText twoChainsText = .ok saved ∧
      (saved.flatMap SavedBlock.retainedBlocks).length = 5 ∧
      (∀ b ∈ saved.flatMap SavedBlock.retainedBlocks, b.label.Valid) ∧
      ((saved.flatMap SavedBlock.retainedBlocks).map SavedBlock.id).Nodup ∧
      ∃ ws, ofText .position twoChainsText = .ok ws) ∧
    (ofText .position strangerText = .error (.invalid (.unknownBlockType "sing" "u")) ∧
      (CompileError.unknownBlockType "sing" "u").BlamedOn [⟨"sing", "u", {}⟩]) ∧
    (ofText .position nestedText =
        .error (.invalid (.malformedLiteral "n" "NUM" "\x7b\"a\":\"x y\",\"b\":[1,-2]\x7d")) ∧
      (CompileError.malformedLiteral "n" "NUM" "\x7b\"a\":\"x y\",\"b\":[1,-2]\x7d").BlamedOn
        [⟨"math_number", "n", .ofList [("NUM", nestedValue)]⟩]) ∧
    (ofText .position sameText = .error (.invalid (.duplicateBlockId "w")) ∧
      (CompileError.duplicateBlockId "w").BlamedOn
        [⟨"wait_time_block", "w", {}⟩, ⟨"wait_time_block", "w", {}⟩]) ∧
    ofText .position shadedText = ofText .position bareText ∧
      ∃ ws, ofText .position bareText = .ok ws := by
  obtain ⟨saved, hsaved, hlisted⟩ := ofText_eq_ok_iff.mp ofText_twoChainsText
  obtain ⟨-, haccepts, -⟩ := ofText_accepts_iff .asListed hsaved
  obtain ⟨hvalid, hnodup⟩ := haccepts.mp ⟨twoChains, ofText_twoChainsText⟩
  have hlength : (saved.flatMap SavedBlock.retainedBlocks).length = twoChains.ids.length := by
    rw [ids_of_takes (flattenAll_eq_ok_iff.mp hlisted)]
    simpa [ids, empty] using (label_listing_perm .asListed saved).length_eq.symm
  obtain ⟨-, -, hstranger, -⟩ := ofText_accepts_iff .position saved_strangerText
  obtain ⟨_, ⟨⟩, hstranger⟩ := hstranger _ (ofText_strangerText .position)
  obtain ⟨-, -, hnested, -⟩ := ofText_accepts_iff .position saved_nestedText
  obtain ⟨_, ⟨⟩, hnested⟩ := hnested _ (ofText_nestedText .position)
  obtain ⟨-, -, hsame, -⟩ := ofText_accepts_iff .position saved_sameText
  obtain ⟨_, ⟨⟩, hsame⟩ := hsame _ (ofText_sameText .position)
  obtain ⟨-, hbare, -, hshaded⟩ := ofText_accepts_iff .position saved_bareText
  have hkinds : ∀ b ∈ [shaded none].flatMap SavedBlock.retainedBlocks, b.label.Valid := by
    intro b hb
    rcases List.mem_cons.mp hb with rfl | hb
    · refine ⟨⟨.action .waitTime, rfl⟩, fun name v hv => ?_⟩
      cases hv
    · obtain rfl := List.mem_singleton.mp hb
      refine ⟨⟨.expression .number, rfl⟩, fun name v hv => ?_⟩
      cases hv
  exact ⟨⟨saved, hsaved, hlength, hvalid, hnodup,
      (ofText_accepts_iff .position hsaved).2.1.mpr ⟨hvalid, hnodup⟩⟩,
    ⟨ofText_strangerText .position, hstranger⟩, ⟨ofText_nestedText .position, hnested⟩,
    ⟨ofText_sameText .position, hsame⟩, hshaded _ _ saved_shadedText rfl,
    hbare.mpr ⟨hkinds, by decide⟩⟩

end Workspace

end BlockSteps

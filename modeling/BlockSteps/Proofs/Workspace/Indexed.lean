import Mathlib
import BlockSteps.Proofs.Workspace.Insertion

/-!
# Insertions one after the other

Whoever builds a workspace inserts block after block and may go on when one was refused.  A
`Workspace` is a row of blocks with distinct ids, and a block is looked up by going through the row.
An `IndexedWorkspace` is kept **twice**: the blocks under their ids, for looking up, and the ids in
the order of insertion, for listing.  Nothing in its type keeps the two in step, an insertion
changes them one after the other, and a listing passes over an id under which there is nothing.  A
drift would lose blocks without any error.

There is none.  `Mirrors` says that an indexed workspace is a row of blocks, in both of its parts.
It holds in the beginning, one insertion keeps it and is answered as for the row
(`Mirrors.attempt`), and so does every run of insertions (`Mirrors.attempts`).

**Main statement.**  `consistent_attempts`: what holds after any run, refused blocks included, what
the next insertion does there, and when all blocks of a list are taken.
-/

namespace BlockSteps

/-! ## Runs of insertions -/

/-- What is answered to an insertion. -/
abbrev Answer := Except CompileError Unit

/-- Insertions one after the other, given what one of them does: the answer to each, and the state
behind the last. -/
def attempts {σ : Type} (attempt : σ → Block → Answer × σ) :
    σ → List Block → List Answer × σ
  | s, [] => ([], s)
  | s, b :: rest =>
    let (answer, s) := attempt s b
    let (answers, s) := attempts attempt s rest
    (answer :: answers, s)

/-- The blocks that were taken, in the order of insertion. -/
def accepted : List Block → List Answer → List Block
  | b :: rest, .ok () :: answers => b :: accepted rest answers
  | _ :: rest, .error _ :: answers => accepted rest answers
  | _, _ => []

/-- Insert a block, and keep the workspace as it was if the block is refused. -/
def Workspace.attempt (ws : Workspace) (b : Block) : Answer × Workspace :=
  match ws.insert b with
  | .ok ws' => (.ok (), ws')
  | .error e => (.error e, ws)

/-- A workspace that is kept twice over. -/
structure IndexedWorkspace where
  /-- The blocks, under their ids. -/
  entries : Std.HashMap BlockId Block := {}
  /-- The ids, in the order of insertion. -/
  order : List BlockId := []

namespace IndexedWorkspace

/-- Put the id of a block behind the others and the block under it, unless the id is taken. -/
def insert (b : Block) : ExceptT CompileError (StateM IndexedWorkspace) Unit := do
  if (← get).entries.contains b.id then
    throw (.duplicateBlockId b.id)
  modify fun iw => { iw with order := iw.order ++ [b.id] }
  modify fun iw => { iw with entries := iw.entries.insert b.id b }

/-- Insert a block, and go on with what the workspace is then. -/
def attempt (iw : IndexedWorkspace) (b : Block) : Answer × IndexedWorkspace :=
  (insert b).run.run iw

/-- Insert blocks until one is refused. -/
def insertAll : List Block → ExceptT CompileError (StateM IndexedWorkspace) Unit
  | [] => pure ()
  | b :: rest => do
    insert b
    insertAll rest

/-- The indexed workspace of a list of blocks. -/
def ofBlocks (blocks : List Block) : Except CompileError IndexedWorkspace :=
  match (insertAll blocks).run.run {} with
  | (.ok (), iw) => .ok iw
  | (.error e, _) => .error e

/-- The blocks in the order of insertion; an id under which there is none is passed over. -/
def blocks (iw : IndexedWorkspace) : List Block := iw.order.filterMap fun id => iw.entries[id]?

/-- The number of blocks. -/
def size (iw : IndexedWorkspace) : Nat := iw.entries.size

/-- Both parts of the workspace hold these blocks. -/
structure Consistent (iw : IndexedWorkspace) (blocks : List Block) : Prop where
  /-- No id stands in the order twice. -/
  nodup_order : iw.order.Nodup
  /-- The order lists the ids under which there is a block. -/
  mem_order_iff : ∀ id, id ∈ iw.order ↔ id ∈ iw.entries
  /-- Every block is kept under its own id. -/
  id_eq : ∀ (id : BlockId) (b : Block), iw.entries[id]? = some b → b.id = id
  /-- The blocks are listed as they were inserted. -/
  blocks_eq : iw.blocks = blocks
  /-- Their number is counted. -/
  size_eq : iw.size = blocks.length

end IndexedWorkspace

/-! ## One insertion -/

namespace Workspace

theorem attempt_eq (ws : Workspace) (b : Block) :
    ws.attempt b =
      if h : b.id ∈ ws.ids then (.error (.duplicateBlockId b.id), ws)
      else (.ok (), ws.push b h) := by
  rw [attempt, insert_eq]
  by_cases hid : b.id ∈ ws.ids
  · rw [dif_pos hid, dif_pos hid]
  · rw [dif_neg hid, dif_neg hid]

end Workspace

namespace IndexedWorkspace

/-- A block that is refused changes neither part, one that is taken changes both. -/
theorem attempt_eq (iw : IndexedWorkspace) (b : Block) :
    iw.attempt b =
      if b.id ∈ iw.entries then (.error (.duplicateBlockId b.id), iw)
      else (.ok (), ⟨iw.entries.insert b.id b, iw.order ++ [b.id]⟩) := by
  have hlooked : iw.attempt b =
      (if iw.entries.contains b.id then throw (.duplicateBlockId b.id)
        else do
          modify fun iw => { iw with order := iw.order ++ [b.id] }
          modify fun iw => { iw with entries := iw.entries.insert b.id b } :
        ExceptT CompileError (StateM IndexedWorkspace) Unit).run.run iw := rfl
  have hcontains : iw.entries.contains b.id = true ↔ b.id ∈ iw.entries :=
    Std.HashMap.contains_iff_mem
  by_cases hid : b.id ∈ iw.entries
  · rw [hlooked, if_pos hid, if_pos (hcontains.mpr hid)]
    rfl
  · rw [hlooked, if_neg hid, if_neg (mt hcontains.mp hid)]
    rfl

/-! ## Both parts in step -/

/-- The indexed workspace is this row of blocks, in both of its parts. -/
structure Mirrors (iw : IndexedWorkspace) (ws : Workspace) : Prop where
  /-- The order is that of the row. -/
  order_eq : iw.order = ws.ids
  /-- Under an id is the block of the row that has it. -/
  getElem?_eq : ∀ id : BlockId, iw.entries[id]? = ws.find? id
  /-- There are as many. -/
  size_eq : iw.entries.size = ws.size

theorem mirrors_empty : Mirrors {} .empty where
  order_eq := rfl
  getElem?_eq _ := Std.HashMap.getElem?_empty
  size_eq := Std.HashMap.size_empty

variable {iw : IndexedWorkspace} {ws : Workspace}

theorem Mirrors.mem_entries_iff (h : iw.Mirrors ws) (id : BlockId) :
    id ∈ iw.entries ↔ id ∈ ws.ids := by
  rw [Std.HashMap.mem_iff_isSome_getElem?, h.getElem?_eq, Option.isSome_iff_ne_none, ne_eq,
    Workspace.find?_eq_none_iff_not_mem_ids, not_not]

/-- **One insertion keeps both parts in step**, and is answered as for the row. -/
theorem Mirrors.attempt (h : iw.Mirrors ws) (b : Block) :
    (iw.attempt b).1 = (ws.attempt b).1 ∧ (iw.attempt b).2.Mirrors (ws.attempt b).2 := by
  rw [IndexedWorkspace.attempt_eq, Workspace.attempt_eq]
  by_cases hid : b.id ∈ ws.ids
  · rw [dif_pos hid, if_pos ((h.mem_entries_iff b.id).mpr hid)]
    exact ⟨rfl, h⟩
  · have hfree : b.id ∉ iw.entries := mt (h.mem_entries_iff b.id).mp hid
    rw [dif_neg hid, if_neg hfree]
    refine ⟨rfl, ?_, fun id => ?_, ?_⟩
    · rw [Workspace.ids_push, ← h.order_eq]
    · -- Under the id of the new block there was none before.
      have hnone : ws.find? b.id = none := Workspace.find?_eq_none_iff_not_mem_ids.mpr hid
      rw [Workspace.find?_push, Std.HashMap.getElem?_insert, h.getElem?_eq]
      by_cases hb : b.id = id
      · rw [if_pos (beq_iff_eq.mpr hb), if_pos hb, ← hb, hnone, Option.none_or]
      · rw [if_neg (mt beq_iff_eq.mp hb), if_neg hb, Option.or_none]
    · rw [Std.HashMap.size_insert, if_neg hfree, h.size_eq]
      simp [Workspace.size]

/-- **Every run of insertions keeps both parts in step**, and is answered as for the row. -/
theorem Mirrors.attempts (h : iw.Mirrors ws) (bs : List Block) :
    (attempts IndexedWorkspace.attempt iw bs).1 = (attempts Workspace.attempt ws bs).1 ∧
      (attempts IndexedWorkspace.attempt iw bs).2.Mirrors
        (attempts Workspace.attempt ws bs).2 := by
  induction bs generalizing iw ws with
  | nil => exact ⟨rfl, h⟩
  | cons b rest ih =>
    obtain ⟨hanswer, hmirrors⟩ := h.attempt b
    obtain ⟨hanswers, hrest⟩ := ih hmirrors
    exact ⟨congrArg₂ List.cons hanswer hanswers, hrest⟩

/-- What is in step loses no block, and every block is where it belongs. -/
theorem Mirrors.consistent (h : iw.Mirrors ws) : iw.Consistent ws.blocks.toList where
  nodup_order := h.order_eq ▸ ws.nodup_ids
  mem_order_iff id := by rw [h.mem_entries_iff, h.order_eq]
  id_eq id b hb := Workspace.id_of_find? (h.getElem?_eq id ▸ hb)
  blocks_eq := by
    have hfound : ∀ b ∈ ws.blocks.toList, iw.entries[b.id]? = some b := fun b hb => by
      rw [h.getElem?_eq]
      exact Workspace.find?_of_mem (Array.mem_toList_iff.mp hb)
    rw [blocks, h.order_eq, Workspace.ids, List.filterMap_map]
    exact (List.filterMap_congr hfound).trans List.filterMap_some
  size_eq := h.size_eq

end IndexedWorkspace

/-! ## What is taken -/

namespace Workspace

/-- A run puts the blocks that are taken behind those that were there. -/
theorem blocks_attempts (ws : Workspace) (bs : List Block) :
    (attempts attempt ws bs).2.blocks.toList =
      ws.blocks.toList ++ accepted bs (attempts attempt ws bs).1 := by
  induction bs generalizing ws with
  | nil => exact (List.append_nil _).symm
  | cons b rest ih =>
    have hrun : attempts attempt ws (b :: rest) =
        ((ws.attempt b).1 :: (attempts attempt (ws.attempt b).2 rest).1,
          (attempts attempt (ws.attempt b).2 rest).2) := rfl
    rw [hrun, ih, attempt_eq]
    by_cases hid : b.id ∈ ws.ids
    · rw [dif_pos hid]
      rfl
    · rw [dif_neg hid]
      simp [accepted]

/-- The block is the first of a list with an id that occurred before it. -/
def FirstRepeated (bs : List Block) (b : Block) : Prop :=
  ∃ earlier later, bs = earlier ++ b :: later ∧ (earlier.map Block.id).Nodup ∧
    b.id ∈ earlier.map Block.id

theorem FirstRepeated.not_nodup {bs : List Block} {b : Block} (h : FirstRepeated bs b) :
    ¬ (bs.map Block.id).Nodup := by
  obtain ⟨earlier, later, rfl, -, hmem⟩ := h
  rw [List.map_append, List.map_cons]
  exact fun hall => List.disjoint_of_nodup_append hall hmem List.mem_cons_self

/-- The ids of a list are distinct, or some block is the first with an id that occurred before. -/
theorem nodup_or_firstRepeated (bs : List Block) :
    (bs.map Block.id).Nodup ∨ ∃ b, FirstRepeated bs b := by
  induction bs using List.reverseRecOn with
  | nil => exact .inl List.nodup_nil
  | append_singleton bs b ih =>
    obtain hnodup | ⟨c, earlier, later, rfl, hnodup, hmem⟩ := ih
    · by_cases hid : b.id ∈ bs.map Block.id
      · exact .inr ⟨b, bs, [], rfl, hnodup, hid⟩
      · refine .inl ?_
        rw [List.map_append, List.map_singleton, ← List.concat_eq_append]
        exact hnodup.concat hid
    · exact .inr ⟨c, earlier, later ++ [b], by simp, hnodup, hmem⟩

/-- A list is refused at the first block whose id occurred before it. -/
theorem FirstRepeated.ofBlocks {bs : List Block} {b : Block} (h : FirstRepeated bs b) :
    ofBlocks bs = .error (.duplicateBlockId b.id) := by
  obtain ⟨earlier, later, rfl, hnodup, hmem⟩ := h
  have hearlier : insertAll empty earlier = .ok ⟨earlier.toArray, hnodup⟩ :=
    ofBlocks_eq_ok_iff.mpr ⟨hnodup, rfl⟩
  have hids : b.id ∈ (Workspace.mk earlier.toArray hnodup).ids := by simpa [ids] using hmem
  rw [Workspace.ofBlocks, insertAll_append, hearlier, ok_bind, insertAll_cons, insert_eq,
    dif_pos hids]
  rfl

end Workspace

namespace IndexedWorkspace

variable {iw : IndexedWorkspace} {ws : Workspace}

theorem run_insertAll_cons (iw : IndexedWorkspace) (b : Block) (rest : List Block) :
    (insertAll (b :: rest)).run.run iw =
      match iw.attempt b with
      | (.ok (), iw') => (insertAll rest).run.run iw'
      | (.error e, iw') => (.error e, iw') := by
  rw [insertAll, ExceptT.run_bind, StateT.run_bind]
  change (iw.attempt b >>= _ : Id _) = _
  obtain ⟨answer, iw'⟩ := iw.attempt b
  cases answer with
  | error e => rfl
  | ok u => rfl

/-- Insertions that stop at the first refusal end as for the row. -/
theorem Mirrors.insertAll (h : iw.Mirrors ws) (bs : List Block) :
    (∃ ws' iw', ws.insertAll bs = .ok ws' ∧
      (IndexedWorkspace.insertAll bs).run.run iw = (.ok (), iw') ∧ iw'.Mirrors ws') ∨
    ∃ e iw', ws.insertAll bs = .error e ∧
      (IndexedWorkspace.insertAll bs).run.run iw = (.error e, iw') := by
  induction bs generalizing iw ws with
  | nil => exact .inl ⟨ws, iw, rfl, rfl, h⟩
  | cons b rest ih =>
    obtain ⟨hanswer, hmirrors⟩ := h.attempt b
    rw [Workspace.insertAll_cons, run_insertAll_cons]
    unfold Workspace.attempt at hanswer hmirrors
    generalize iw.attempt b = indexed at hanswer hmirrors ⊢
    obtain ⟨answer, iw'⟩ := indexed
    cases hinsert : ws.insert b with
    | error e =>
      rw [hinsert] at hanswer
      obtain rfl : answer = .error e := hanswer
      exact .inr ⟨e, iw', rfl, rfl⟩
    | ok ws' =>
      rw [hinsert] at hanswer hmirrors
      obtain rfl : answer = .ok () := hanswer
      exact ih hmirrors

/-- A list of blocks comes out as for the row. -/
theorem mirrors_ofBlocks (bs : List Block) :
    (∃ ws iw, Workspace.ofBlocks bs = .ok ws ∧ ofBlocks bs = .ok iw ∧ iw.Mirrors ws) ∨
    ∃ e, Workspace.ofBlocks bs = .error e ∧ IndexedWorkspace.ofBlocks bs = .error e := by
  unfold Workspace.ofBlocks IndexedWorkspace.ofBlocks
  obtain ⟨ws, iw, hws, hiw, h⟩ | ⟨e, iw, hws, hiw⟩ := mirrors_empty.insertAll bs
  · exact .inl ⟨ws, iw, hws, by rw [hiw], h⟩
  · exact .inr ⟨e, hws, by rw [hiw]⟩

/-- A list is taken as a whole if its ids are distinct, and otherwise refused at the first block
whose id occurred before it. -/
theorem ofBlocks_cases (bs : List Block) :
    (∃ h : (bs.map Block.id).Nodup, Workspace.ofBlocks bs = .ok ⟨bs.toArray, h⟩ ∧
        ∃ iw, ofBlocks bs = .ok iw ∧ iw.Consistent bs) ∨
      ¬ (bs.map Block.id).Nodup ∧ ∃ b, Workspace.FirstRepeated bs b ∧
        Workspace.ofBlocks bs = .error (.duplicateBlockId b.id) ∧
        ofBlocks bs = .error (.duplicateBlockId b.id) := by
  obtain hnodup | ⟨b, hfirst⟩ := Workspace.nodup_or_firstRepeated bs
  · have hok : Workspace.ofBlocks bs = .ok ⟨bs.toArray, hnodup⟩ :=
      Workspace.ofBlocks_eq_ok_iff.mpr ⟨hnodup, rfl⟩
    obtain ⟨ws, iw, hws, hiw, h⟩ | ⟨e, he, -⟩ := mirrors_ofBlocks bs
    · obtain rfl : (⟨bs.toArray, hnodup⟩ : Workspace) = ws := Except.ok.inj (hok.symm.trans hws)
      exact .inl ⟨hnodup, hok, iw, hiw, h.consistent⟩
    · exact absurd (hok.symm.trans he) nofun
  · have herror := hfirst.ofBlocks
    obtain ⟨ws, iw, hws, -, -⟩ | ⟨e, he, hindexed⟩ := mirrors_ofBlocks bs
    · exact absurd (herror.symm.trans hws) nofun
    · obtain rfl : _ = e := Except.error.inj (herror.symm.trans he)
      exact .inr ⟨hfirst.not_nodup, b, hfirst, herror, hindexed⟩

/-- **A workspace that is kept twice does not drift apart.**  Whatever blocks are inserted one after
the other, refused ones among them:

* all insertions are answered as for the row of blocks; both workspaces then hold exactly the blocks
  that were taken, unchanged and in the order of insertion, and the indexed one is consistent;
* one more insertion is refused exactly if the id is there, names it, and then changes nothing;
* a list is taken as a whole exactly if its ids are distinct, and otherwise the refusal names the
  id of the first block whose id occurred before it. -/
theorem consistent_attempts (bs : List Block) :
    let row := attempts Workspace.attempt .empty bs
    let indexed := attempts attempt {} bs
    let kept := accepted bs row.1
    (indexed.1 = row.1 ∧ row.2.blocks.toList = kept ∧ indexed.2.Consistent kept ∧
      ∀ id : BlockId, indexed.2.entries[id]? = row.2.find? id) ∧
    (∀ b, row.2.attempt b =
        (if h : b.id ∈ row.2.ids then (.error (.duplicateBlockId b.id), row.2)
          else (.ok (), row.2.push b h)) ∧
      indexed.2.attempt b =
        if b.id ∈ indexed.2.order then (.error (.duplicateBlockId b.id), indexed.2)
        else (.ok (), ⟨indexed.2.entries.insert b.id b, indexed.2.order ++ [b.id]⟩)) ∧
    ((∃ h : (bs.map Block.id).Nodup, Workspace.ofBlocks bs = .ok ⟨bs.toArray, h⟩ ∧
        ∃ iw, ofBlocks bs = .ok iw ∧ iw.Consistent bs) ∨
      ¬ (bs.map Block.id).Nodup ∧ ∃ b, Workspace.FirstRepeated bs b ∧
        Workspace.ofBlocks bs = .error (.duplicateBlockId b.id) ∧
        ofBlocks bs = .error (.duplicateBlockId b.id)) := by
  obtain ⟨hanswers, hmirrors⟩ := mirrors_empty.attempts bs
  have hkept : (attempts Workspace.attempt .empty bs).2.blocks.toList =
      accepted bs (attempts Workspace.attempt .empty bs).1 :=
    Workspace.blocks_attempts .empty bs
  have hconsistent := hmirrors.consistent
  refine ⟨⟨hanswers, hkept, hkept ▸ hconsistent, hmirrors.getElem?_eq⟩,
    fun b => ⟨Workspace.attempt_eq _ b, ?_⟩, ofBlocks_cases bs⟩
  rw [attempt_eq]
  simp only [hconsistent.mem_order_iff]

end IndexedWorkspace

end BlockSteps

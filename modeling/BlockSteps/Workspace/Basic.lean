import BlockSteps.Error

/-!
# The workspace

A workspace is its blocks in the order in which they were inserted, no two of them under one id.
Two things are read off it: the block that has an id, and the **top blocks**, which no block refers
to and with which the chains of the program begin.

That no two blocks share an id is part of the type.  `insert` can keep it, because it refuses an id
that is there.
-/

namespace BlockSteps

/-- Blocks in the order of insertion. -/
@[ext]
structure Workspace where
  /-- The blocks. -/
  blocks : Array Block := #[]
  /-- No two blocks share an id. -/
  distinct : (blocks.toList.map Block.id).Nodup := by decide +kernel
  deriving Repr, DecidableEq

namespace Workspace

/-- The workspace without blocks. -/
def empty : Workspace := {}

/-- The number of blocks. -/
def size (ws : Workspace) : Nat := ws.blocks.size

/-- Whether there are no blocks. -/
def isEmpty (ws : Workspace) : Bool := ws.blocks.isEmpty

/-- The ids of the blocks, in the order of insertion. -/
def ids (ws : Workspace) : List BlockId := ws.blocks.toList.map Block.id

/-- The block with an id, if there is one. -/
def find? (ws : Workspace) (id : BlockId) : Option Block := ws.blocks.find? fun b => b.id == id

/-- The block that `origin` refers to by the id `target`. -/
def resolve (ws : Workspace) (origin target : BlockId) : Except CompileError Block :=
  match ws.find? target with
  | some b => .ok b
  | none => .error (.danglingReference origin target)

/-- A block is found under an id exactly if some block has it. -/
theorem find?_eq_none_iff {ws : Workspace} {id : BlockId} :
    ws.find? id = none ↔ ∀ b ∈ ws.blocks, b.id ≠ id := by
  simp [find?, Array.find?_eq_none]

/-- An id is free exactly if it is none of the ids. -/
theorem find?_eq_none_iff_not_mem_ids {ws : Workspace} {id : BlockId} :
    ws.find? id = none ↔ id ∉ ws.ids := by
  rw [find?_eq_none_iff]
  simp [ids]

/-- The workspace with one more block, whose id is free. -/
def push (ws : Workspace) (b : Block) (h : b.id ∉ ws.ids) : Workspace where
  blocks := ws.blocks.push b
  distinct := by
    rw [Array.toList_push, List.map_append, List.nodup_append]
    refine ⟨ws.distinct, by simp, ?_⟩
    simpa [ids] using h

/-- Add a block, unless its id is taken. -/
def insert (ws : Workspace) (b : Block) : Except CompileError Workspace :=
  match h : ws.find? b.id with
  | some _ => .error (.duplicateBlockId b.id)
  | none => .ok (ws.push b (find?_eq_none_iff_not_mem_ids.mp h))

/-- Add several blocks, in order. -/
def insertAll (ws : Workspace) : List Block → Except CompileError Workspace
  | [] => .ok ws
  | b :: rest => do
    let ws ← ws.insert b
    ws.insertAll rest

/-- The workspace of a list of blocks. -/
def ofBlocks (blocks : List Block) : Except CompileError Workspace := empty.insertAll blocks

/-- Every id that some block refers to. -/
def referenced (ws : Workspace) : List BlockId := ws.blocks.toList.flatMap Block.references

/-- The ids of the blocks that no block refers to, in the order of insertion. -/
def topIds (ws : Workspace) : List BlockId :=
  let referenced := ws.referenced
  ws.ids.filter fun id => !referenced.contains id

@[simp] theorem size_empty : empty.size = 0 := rfl

@[simp] theorem find?_empty (id : BlockId) : empty.find? id = none := rfl

theorem nodup_ids (ws : Workspace) : ws.ids.Nodup := ws.distinct

/-- What is found under an id has that id. -/
theorem id_of_find? {ws : Workspace} {id : BlockId} {b : Block} (h : ws.find? id = some b) :
    b.id = id := by
  have := Array.find?_some h
  simpa using this

/-- What is found is one of the blocks. -/
theorem mem_of_find? {ws : Workspace} {id : BlockId} {b : Block} (h : ws.find? id = some b) :
    b ∈ ws.blocks := Array.mem_of_find?_eq_some h

/-- A reference resolves to the block that is found under it. -/
@[simp] theorem resolve_eq_ok_iff {ws : Workspace} {origin target : BlockId} {b : Block} :
    ws.resolve origin target = .ok b ↔ ws.find? target = some b := by
  unfold resolve
  cases ws.find? target with
  | none => simp
  | some c => simp

/-- A block whose id is there is refused, another one is added. -/
theorem insert_eq (ws : Workspace) (b : Block) :
    ws.insert b =
      if h : b.id ∈ ws.ids then .error (.duplicateBlockId b.id) else .ok (ws.push b h) := by
  unfold insert
  split
  · rename_i c hc
    have hid : b.id ∈ ws.ids := List.mem_map.mpr
      ⟨c, Array.mem_toList_iff.mpr (mem_of_find? hc), id_of_find? hc⟩
    rw [dif_pos hid]
  · rename_i hnone
    rw [dif_neg (find?_eq_none_iff_not_mem_ids.mp hnone)]

/-- An insertion succeeds exactly if the id is free, and then adds the block behind the others. -/
theorem insert_eq_ok_iff {ws ws' : Workspace} {b : Block} :
    ws.insert b = .ok ws' ↔ ∃ h : b.id ∉ ws.ids, ws' = ws.push b h := by
  rw [insert_eq]
  split
  · rename_i h
    simp [h]
  · rename_i h
    simp [h, eq_comm]

@[simp] theorem blocks_push {ws : Workspace} {b : Block} (h : b.id ∉ ws.ids) :
    (ws.push b h).blocks = ws.blocks.push b := rfl

theorem ids_push {ws : Workspace} {b : Block} (h : b.id ∉ ws.ids) :
    (ws.push b h).ids = ws.ids ++ [b.id] := by
  simp [ids]

theorem mem_topIds {ws : Workspace} {id : BlockId} :
    id ∈ ws.topIds ↔ id ∈ ws.ids ∧ id ∉ ws.referenced := by
  simp [topIds]

end Workspace

end BlockSteps

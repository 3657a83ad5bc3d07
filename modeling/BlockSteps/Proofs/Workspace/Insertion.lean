import Mathlib
import BlockSteps.Workspace.Basic
import BlockSteps.Traced

/-!
# Workspaces from insertions

A workspace that was built by insertions is the list of the inserted blocks, and every workspace can
be built so.

* `insertAll_eq_ok_iff`: several insertions succeed exactly if the ids are new and differ from one
  another, and then the blocks stand behind the ones that were there, in order.
* `ofBlocks_blocks`: a workspace is that of its own blocks.
* `find?_of_mem`: every block is the one that is found under its id.
-/

namespace BlockSteps.Workspace

variable {ws ws' : Workspace}

@[simp] theorem insertAll_nil (ws : Workspace) : ws.insertAll [] = .ok ws := rfl

theorem insertAll_cons (ws : Workspace) (b : Block) (rest : List Block) :
    ws.insertAll (b :: rest) = (ws.insert b >>= fun ws => ws.insertAll rest) := rfl

theorem insertAll_append (ws : Workspace) (bs cs : List Block) :
    ws.insertAll (bs ++ cs) = (ws.insertAll bs >>= fun ws => ws.insertAll cs) := by
  induction bs generalizing ws with
  | nil => rfl
  | cons b rest ih =>
    rw [List.cons_append, insertAll_cons, insertAll_cons]
    cases ws.insert b with
    | error e => rfl
    | ok ws => exact ih ws

theorem exists_find?_of_mem_ids {id : BlockId} (h : id ∈ ws.ids) : ∃ b, ws.find? id = some b := by
  rw [← Option.ne_none_iff_exists']
  exact fun hnone => find?_eq_none_iff_not_mem_ids.mp hnone h

/-- Behind the others, a block is found where none was before. -/
theorem find?_push {b : Block} (h : b.id ∉ ws.ids) (id : BlockId) :
    (ws.push b h).find? id = (ws.find? id).or (if b.id = id then some b else none) := by
  simp [find?, Array.find?_push]

/-- Insertions succeed exactly if all ids are new and no two are the same. -/
theorem insertAll_eq_ok_iff {bs : List Block} :
    ws.insertAll bs = .ok ws' ↔
      (∀ b ∈ bs, b.id ∉ ws.ids) ∧ (bs.map Block.id).Nodup ∧
        ws'.blocks = ws.blocks ++ bs.toArray := by
  induction bs generalizing ws with
  | nil => simp [Workspace.ext_iff, eq_comm]
  | cons b rest ih =>
    have hblocks : ws.blocks.push b ++ rest.toArray = ws.blocks ++ (b :: rest).toArray := by
      apply Array.ext'
      simp
    rw [insertAll_cons, bind_eq_ok_iff]
    constructor
    · rintro ⟨mid, hmid, hrest⟩
      obtain ⟨hfree, rfl⟩ := insert_eq_ok_iff.mp hmid
      obtain ⟨hnew, hnodup, hall⟩ := ih.mp hrest
      simp only [ids_push, List.mem_append, List.mem_singleton, not_or] at hnew
      refine ⟨?_, ?_, by rw [hall, blocks_push, hblocks]⟩
      · rw [List.forall_mem_cons]
        exact ⟨hfree, fun c hc => (hnew c hc).1⟩
      · rw [List.map_cons, List.nodup_cons]
        refine ⟨fun hmem => ?_, hnodup⟩
        obtain ⟨c, hc, hcb⟩ := List.mem_map.mp hmem
        exact (hnew c hc).2 hcb
    · rintro ⟨hnew, hnodup, hall⟩
      rw [List.forall_mem_cons] at hnew
      rw [List.map_cons, List.nodup_cons] at hnodup
      refine ⟨ws.push b hnew.1, insert_eq_ok_iff.mpr ⟨hnew.1, rfl⟩, ?_⟩
      refine ih.mpr ⟨fun c hc => ?_, hnodup.2, by rw [hall, blocks_push, hblocks]⟩
      simp only [ids_push, List.mem_append, List.mem_singleton, not_or]
      exact ⟨hnew.2 c hc, fun h => hnodup.1 (List.mem_map.mpr ⟨c, hc, h⟩)⟩

/-- From the empty workspace the blocks come out as they were put in. -/
theorem ofBlocks_eq_ok_iff {bs : List Block} :
    ofBlocks bs = .ok ws ↔ ∃ h : (bs.map Block.id).Nodup, ws = ⟨bs.toArray, h⟩ := by
  unfold ofBlocks
  rw [insertAll_eq_ok_iff]
  simp [empty, ids, Workspace.ext_iff]

/-- Every workspace can be built by insertions. -/
theorem ofBlocks_blocks (ws : Workspace) : ofBlocks ws.blocks.toList = .ok ws :=
  ofBlocks_eq_ok_iff.mpr ⟨ws.distinct, rfl⟩

/-- The id tells the block. -/
theorem block_unique {b c : Block} (hb : b ∈ ws.blocks) (hc : c ∈ ws.blocks) (hid : b.id = c.id) :
    b = c :=
  List.inj_on_of_nodup_map ws.distinct (Array.mem_toList_iff.mpr hb) (Array.mem_toList_iff.mpr hc)
    hid

/-- Every block is found under its id. -/
theorem find?_of_mem {b : Block} (hb : b ∈ ws.blocks) : ws.find? b.id = some b := by
  obtain ⟨c, hc⟩ : ∃ c, ws.find? b.id = some c :=
    exists_find?_of_mem_ids (List.mem_map_of_mem (Array.mem_toList_iff.mpr hb))
  rw [hc, block_unique (mem_of_find? hc) hb (id_of_find? hc)]

end BlockSteps.Workspace

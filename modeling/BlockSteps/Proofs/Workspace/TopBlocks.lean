import Mathlib
import BlockSteps.Proofs.Workspace.Insertion
import BlockSteps.Proofs.Workspace.Reference

/-!
# Top blocks

The top blocks of a workspace are read off all its references at once: they are the blocks that none
of them names.  Nothing is followed for it, so it is not plain that every block can be reached from
a top block.  On a circle, none of the blocks can.

**Main statement.**  `topIds_of_acyclic`: without circles all blocks can.  From a block that is no
top block a reference leads back to another one, and with every reference more lies **below** the
block that one has come to (`below_lt`).  As no more than all blocks can lie below one, the way back
ends, and it ends at a top block.

Blocks may be shared and references may dangle.  That the ids are distinct is used, and it is part
of what a workspace is.
-/

namespace BlockSteps.Workspace

variable {ws : Workspace} {b c : Block}

theorem topIds_sublist (ws : Workspace) : ws.topIds.Sublist ws.ids := List.filter_sublist

/-- The top blocks are those that no block refers to. -/
theorem mem_topIds_iff {id : BlockId} :
    id ∈ ws.topIds ↔ (∃ b ∈ ws.blocks, b.id = id) ∧ ∀ c ∈ ws.blocks, id ∉ c.references := by
  simp [mem_topIds, ids, referenced]

/-- A block that is no top block is the target of a reference. -/
theorem exists_refersTo (hb : b ∈ ws.blocks) (htop : b.id ∉ ws.topIds) :
    ∃ c ∈ ws.blocks, ws.RefersTo c b := by
  rw [mem_topIds_iff, not_and] at htop
  have hreferred := htop ⟨b, hb, rfl⟩
  push Not at hreferred
  obtain ⟨c, hc, hid⟩ := hreferred
  exact ⟨c, hc, b.id, hid, find?_of_mem hb⟩

/-- Without circles, references lead to every block from a top block.  The induction is on how many
more blocks can lie below a block than do. -/
theorem exists_top_reaches_of_acyclic (hacyclic : ws.Acyclic) (hb : b ∈ ws.blocks) :
    ∃ top ∈ ws.topIds, ∃ head, ws.find? top = some head ∧
      Relation.ReflTransGen ws.RefersTo head b := by
  induction hroom : ws.size - ws.below b using Nat.strong_induction_on generalizing b with
  | _ room ih =>
    by_cases htop : b.id ∈ ws.topIds
    · exact ⟨b.id, htop, b, find?_of_mem hb, .refl⟩
    · obtain ⟨c, hc, hcb⟩ := exists_refersTo hb htop
      have hmore : ws.below b < ws.below c := below_lt hacyclic hcb
      have hsize : ws.below c ≤ ws.size := ws.below_le_size c
      obtain ⟨top, htop, head, hhead, hreaches⟩ := ih _ (by omega) hc rfl
      exact ⟨top, htop, head, hhead, hreaches.tail hcb⟩

/-- **Without circles nothing lies outside the reach of the top blocks.**  They are listed once each
and in the order of insertion, they are exactly the blocks that no block refers to, every block can
be reached from one of them, and there is one unless there are no blocks. -/
theorem topIds_of_acyclic (hacyclic : ws.Acyclic) :
    ws.topIds.Sublist ws.ids ∧ ws.topIds.Nodup ∧
    (∀ id, id ∈ ws.topIds ↔
      (∃ b ∈ ws.blocks, b.id = id) ∧ ∀ c ∈ ws.blocks, id ∉ c.references) ∧
    (∀ b ∈ ws.blocks, ∃ top ∈ ws.topIds, ∃ head, ws.find? top = some head ∧
      Relation.ReflTransGen ws.RefersTo head b) ∧
    (ws.isEmpty = false → ws.topIds ≠ []) := by
  have hreaches := fun b hb => exists_top_reaches_of_acyclic (b := b) hacyclic hb
  refine ⟨ws.topIds_sublist, ws.nodup_ids.sublist ws.topIds_sublist, fun id => mem_topIds_iff,
    hreaches, fun hne => ?_⟩
  obtain ⟨b, hb⟩ : ∃ b, b ∈ ws.blocks := by
    apply Array.exists_mem_of_ne_empty
    rintro hempty
    simp [isEmpty, hempty] at hne
  obtain ⟨top, htop, -⟩ := hreaches b hb
  exact List.ne_nil_of_mem htop

/-- A loop and the block behind it, both with the same count, and behind that a link to nowhere. -/
def sharedCount : Workspace where
  blocks := #[
    { id := "n", type := "math_number" },
    { id := "w", type := "wait_time_block", values := .ofList [("SECONDS", "n")],
      next := some "ghost" },
    { id := "a", type := "acquire_frame_block" },
    { id := "r", type := "controls_repeat_ext", values := .ofList [("TIMES", "n")],
      statements := .ofList [("DO", "a")], next := some "w" },
    { id := "m", type := "move_stage_block" }]

theorem topIds_of_acyclic_sharedCount :
    sharedCount.Acyclic ∧ sharedCount.topIds = ["r", "m"] ∧
    ∀ b ∈ sharedCount.blocks, ∃ top ∈ sharedCount.topIds, ∃ head,
      sharedCount.find? top = some head ∧ Relation.ReflTransGen sharedCount.RefersTo head b := by
  have hacyclic : sharedCount.Acyclic :=
    acyclic_of_rank (fun b => sharedCount.ids.idxOf b.id) (by decide +kernel)
  exact ⟨hacyclic, by decide +kernel, (topIds_of_acyclic hacyclic).2.2.2.1⟩

end BlockSteps.Workspace

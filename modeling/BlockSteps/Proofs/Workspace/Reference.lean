import Mathlib
import BlockSteps.Workspace.Basic

/-!
# References between blocks

A block refers to another when one of the ids that it holds is found to be the other.  An id under
which nothing is found is no reference to any block, so a workspace with dangling references can
still be without circles.

* `Acyclic`: no block can be reached from itself.
* `below`: the number of blocks that can be reached from a block.  In a workspace without circles it
  falls with every reference (`below_lt`), and it never exceeds the number of blocks
  (`below_le_size`).  It is the measure by which every walk through such a workspace ends.
* `acyclic_of_rank`: any other measure that falls with every reference shows that there is no
  circle.
-/

namespace BlockSteps.Workspace

/-- Some id that the first block holds is the id of the second. -/
def RefersTo (ws : Workspace) (b c : Block) : Prop := ∃ id ∈ b.references, ws.find? id = some c

/-- No block can be reached from itself by references. -/
def Acyclic (ws : Workspace) : Prop := ∀ b, ¬ Relation.TransGen ws.RefersTo b b

open Classical in
/-- The number of blocks that can be reached from a block by references. -/
noncomputable def below (ws : Workspace) (b : Block) : Nat :=
  (ws.blocks.toList.toFinset.filter fun c => Relation.TransGen ws.RefersTo b c).card

variable {ws : Workspace} {b c : Block}

theorem RefersTo.mem (h : ws.RefersTo b c) : c ∈ ws.blocks := by
  obtain ⟨id, -, hc⟩ := h
  exact mem_of_find? hc

theorem mem_references_of_value {slot : String} {id : BlockId}
    (h : b.values.get? slot = some id) : id ∈ b.references := by
  simp [Block.references, Dict.mem_values_of_get? h]

theorem mem_references_of_statement {slot : String} {id : BlockId}
    (h : b.statements.get? slot = some id) : id ∈ b.references := by
  simp [Block.references, Dict.mem_values_of_get? h]

theorem mem_references_of_next {id : BlockId} (h : b.next = some id) : id ∈ b.references := by
  simp [Block.references, h]

theorem mem_referenced (hb : b ∈ ws.blocks) {id : BlockId} (hid : id ∈ b.references) :
    id ∈ ws.referenced :=
  List.mem_flatMap.mpr ⟨b, Array.mem_toList_iff.mpr hb, hid⟩

theorem below_le_size (ws : Workspace) (b : Block) : ws.below b ≤ ws.size := by
  classical
  calc ws.below b
    _ ≤ ws.blocks.toList.toFinset.card := Finset.card_filter_le _ _
    _ ≤ ws.blocks.toList.length := List.toFinset_card_le _
    _ = ws.blocks.size := Array.length_toList

/-- What can be reached from the target of a reference can be reached from its origin, and the
target itself besides. -/
theorem below_lt (h : ws.Acyclic) (hbc : ws.RefersTo b c) : ws.below c < ws.below b := by
  unfold below
  apply Finset.card_lt_card
  rw [Finset.ssubset_iff_of_subset]
  · refine ⟨c, ?_, ?_⟩
    · simpa using ⟨hbc.mem, Relation.TransGen.single hbc⟩
    · simpa using fun _ => h c
  · intro d hd
    simp only [Finset.mem_filter] at hd ⊢
    exact ⟨hd.1, Relation.TransGen.head hbc hd.2⟩

/-- A measure that falls with every reference of a block of the workspace excludes circles.  On a
circle every block is the target of a reference, so no other blocks need to be looked at. -/
theorem acyclic_of_rank (rank : Block → Nat)
    (h : ∀ b ∈ ws.blocks, ∀ id ∈ b.references, ∀ c ∈ ws.find? id, rank c < rank b) :
    ws.Acyclic := by
  have step : ∀ b c, b ∈ ws.blocks → ws.RefersTo b c → rank c < rank b := by
    rintro b c hb ⟨id, hid, hc⟩
    exact h b hb id hid c hc
  have falls : ∀ b c, b ∈ ws.blocks → Relation.TransGen ws.RefersTo b c →
      c ∈ ws.blocks ∧ rank c < rank b := by
    intro b c hb hbc
    induction hbc with
    | single hbc => exact ⟨hbc.mem, step b _ hb hbc⟩
    | tail _ hcd ih => exact ⟨hcd.mem, Nat.lt_trans (step _ _ ih.1 hcd) ih.2⟩
  intro b hbb
  have hb : b ∈ ws.blocks := by
    obtain ⟨c, -, hcb⟩ := Relation.TransGen.tail'_iff.mp hbb
    exact hcb.mem
  exact Nat.lt_irrefl _ (falls b b hb hbb).2

end BlockSteps.Workspace

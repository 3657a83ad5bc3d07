import Mathlib
import BlockSteps.Proofs.Compile.Kept

/-!
# Value slots that are read

For the blocks that it follows, the compiler asks for values: for the parameters of an action and
for the count of a loop, and for the operands of what it has asked for.  `Reads` lists the slots in
question and `Asked` the blocks that stand in them, for any set of **followed** blocks, in any
workspace: references may lead in circles here, and a block may be followed from one place and asked
for its value from another.

Whatever else a block refers to is not looked at.  That is used in two ways: what is read must be in
order if the compilation succeeds (`Reads.slotValued`), and what is not read may be exchanged
(`Workspace.refill` in the module on fields).
-/

namespace BlockSteps.Workspace

/-- The value slots that are read where the given blocks are followed. -/
inductive Reads (ws : Workspace) (followed : Block → Prop) : Block → String → Prop where
  /-- A slot from which a block in a chain takes a parameter or its count. -/
  | param {b : Block} {k : Kind} {slot : String} (hb : followed b) (hkind : b.kind = .ok k)
      (hcategory : k.category ≠ .value) (hslot : slot ∈ k.valueSlots) : Reads ws followed b slot
  /-- A slot with an operand of the block in a slot that is read. -/
  | operand {a b : Block} {slot other : String} {e : Expression} (ha : Reads ws followed a slot)
      (hattached : ws.Attached a slot b) (hkind : b.kind = .ok (.expression e))
      (hslot : other ∈ e.valueSlots) : Reads ws followed b other

/-- The value of the block is asked for where the given blocks are followed. -/
def Asked (ws : Workspace) (followed : Block → Prop) (c : Block) : Prop :=
  ∃ b slot, ws.Reads followed b slot ∧ ws.Attached b slot c

variable {ws : Workspace} {opts : Options} {followed : Block → Prop} {b c : Block} {slot : String}

/-- The operands of what is asked for are read. -/
theorem Asked.reads (h : ws.Asked followed b) {e : Expression}
    (hkind : b.kind = .ok (.expression e)) (hslot : slot ∈ e.valueSlots) :
    ws.Reads followed b slot := by
  obtain ⟨a, other, ha, hattached⟩ := h
  exact .operand ha hattached hkind hslot

section Walked

variable (hwalked : ∀ b, followed b → ws.Walked opts b)
include hwalked

/-- Every slot that is read is empty or holds a block whose value is found. -/
theorem Reads.slotValued (h : ws.Reads followed b slot) : ws.SlotValued b slot := by
  induction h with
  | param hb hkind hcategory hslot => exact (hwalked _ hb).slotValued hkind hcategory hslot
  | operand _ hattached hkind hslot ih =>
    obtain ⟨e, hk, hoperands⟩ := (ih.valued hattached).expression
    cases kind_unique hkind hk
    exact hoperands _ hslot

theorem Asked.valued (h : ws.Asked followed c) : ws.Valued c := by
  obtain ⟨b, slot, hreads, hattached⟩ := h
  exact (hreads.slotValued hwalked).valued hattached

end Walked

end BlockSteps.Workspace

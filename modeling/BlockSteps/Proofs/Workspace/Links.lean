import Mathlib
import BlockSteps.Proofs.Workspace.Rebuilding

/-!
# The links of a listed forest

In a workspace that lists a forest, every block is the block of one tree, and every reference leads
from a tree to a tree attached to it.  This file says what follows for single links:

* **Which tree a link leads to**: the next block is that of the next tree (`exists_next`), the body
  of a loop is that of an input (`exists_body`), and no other block has statement slots
  (`loop_of_statement`).
* **Listings**: a tree and its inputs share no id with the rest of the chain (`own_disjoint`).
* **One link to each block**: no two blocks refer to one (`parent_unique`), and no block does so
  twice (`nodup_references`).
-/

namespace BlockSteps

/-! ## Listings of subtrees -/

/-- The trees of a listing up to the root: those of its inputs and the root itself, without the rest
of the chain. -/
def Tree.own (t : Tree) : List Tree := (t.inputs.flatMap fun p => p.2.listing) ++ [t]

theorem sublist_flatMap_of_mem {α β : Type} (f : α → List β) {xs : List α} {x : α} (h : x ∈ xs) :
    (f x).Sublist (xs.flatMap f) := by
  rw [List.flatMap_def]
  exact List.sublist_flatten_of_mem (List.mem_map_of_mem h)

theorem Tree.listing_eq_own (t : Tree) :
    t.listing = t.own ++ t.next.toList.flatMap Tree.listing := by
  rw [t.listing_eq, own, List.append_assoc, List.singleton_append]

theorem Tree.listing_sublist_of_mem_children {t c : Tree} (h : c ∈ t.children) :
    c.listing.Sublist t.listing := by
  rw [t.listing_eq]
  rcases List.mem_append.mp h with h | h
  · obtain ⟨p, hp, rfl⟩ := List.mem_map.mp h
    have hinput := sublist_flatMap_of_mem (fun p : String × Tree => p.2.listing) hp
    exact hinput.trans (List.sublist_append_left _ _)
  · have hnext := sublist_flatMap_of_mem Tree.listing h
    exact (hnext.cons t).trans (List.sublist_append_right _ _)

/-- The listing of every subtree is a part of the listing. -/
theorem Tree.listing_sublist {t : Tree} : ∀ {u : Tree}, u ∈ t.listing →
    u.listing.Sublist t.listing := by
  induction t using Tree.induction with
  | h t ih =>
    intro u hu
    rcases List.mem_cons.mp (t.listing_perm.mem_iff.mp hu) with rfl | hu
    · exact .refl _
    · obtain ⟨c, hc, hu⟩ := List.mem_flatMap.mp hu
      exact (ih c hc hu).trans (listing_sublist_of_mem_children hc)

/-! ## Slots of a block -/

namespace Block

variable {b : Block} {id : BlockId}

/-- A block refers to what stands in its slots and to the next block. -/
theorem mem_references_iff :
    id ∈ b.references ↔ (∃ slot, b.values.get? slot = some id) ∨
      (∃ slot, b.statements.get? slot = some id) ∨ b.next = some id := by
  simp only [references, List.mem_append, Dict.mem_values_iff, Option.mem_toList, or_assoc]

/-- Without repeated references, what stands in a value slot is no first block of a body and not the
next block. -/
theorem not_statement_of_value (h : b.references.Nodup) {slot : String}
    (hid : b.values.get? slot = some id) :
    (∀ other, b.statements.get? other ≠ some id) ∧ b.next ≠ some id := by
  rw [references, List.append_assoc] at h
  have hdisjoint := (List.nodup_append.mp h).2.2 id (Dict.mem_values_iff.mpr ⟨slot, hid⟩) id
  simp only [List.mem_append, Dict.mem_values_iff, Option.mem_toList] at hdisjoint
  exact ⟨fun other hother => hdisjoint (.inl ⟨other, hother⟩) rfl,
    fun hnext => hdisjoint (.inr hnext) rfl⟩

/-- Without repeated references, the first block of a body is not the next block. -/
theorem not_next_of_statement (h : b.references.Nodup) {slot : String}
    (hid : b.statements.get? slot = some id) : b.next ≠ some id := by
  intro hnext
  have hstatement := Dict.mem_values_iff.mpr ⟨slot, hid⟩
  exact (List.nodup_append.mp h).2.2 id (List.mem_append_right _ hstatement) id
    (Option.mem_toList.mpr hnext) rfl

end Block

/-! ## Slots of a tree -/

/-- What is picked from the inputs is attached to the tree, in a slot that was picked. -/
theorem exists_input_of_inputIds {inputs : List (String × Tree)}
    (hinputs : inputs.Pairwise fun p q => p.1 < q.1) {pick : String → Bool} {slot : String}
    {id : BlockId} (h : (inputIds pick inputs).get? slot = some id) :
    ∃ u, (slot, u) ∈ inputs ∧ pick slot = true ∧ u.id = id := by
  rw [Dict.get?_eq_some_iff, entries_inputIds hinputs] at h
  obtain ⟨⟨s, u⟩, hu, hp⟩ := List.mem_map.mp h
  cases hp
  obtain ⟨hu, hpick⟩ := List.mem_filter.mp hu
  exact ⟨u, hu, hpick, rfl⟩

/-- Only loops have a statement slot, and it holds the body. -/
theorem Tree.Loads.exists_input_of_statement {t : Tree} {b : Block} (h : t.Loads b)
    (ht : t.Ordered) {slot : String} {id : BlockId} (hid : b.statements.get? slot = some id) :
    slot = Kind.bodySlot ∧ (∃ l, b.kind = .ok (.loop l)) ∧
      ∃ u, (slot, u) ∈ t.inputs ∧ u.id = id := by
  obtain ⟨k, hk, htree⟩ := h.kind
  obtain ⟨kind, literals, hkind, -, rfl⟩ := h
  cases htree.symm.trans hkind
  obtain ⟨u, hu, hpick, hu'⟩ := exists_input_of_inputIds ht hid
  have hslot : slot ∈ k.statementSlots := by simpa using hpick
  cases k with
  | action a => exact absurd hslot List.not_mem_nil
  | loop l => exact ⟨List.mem_singleton.mp hslot, ⟨l, hk⟩, u, hu, hu'⟩
  | expression e => exact absurd hslot List.not_mem_nil

namespace Workspace.Lists

variable {ws : Workspace} {forest : List Tree} {t : Tree} {b c : Block}

/-! ## Blocks and trees -/

/-- No two trees of a listing share an id. -/
theorem nodup_ids_listing (h : ws.Lists forest) (ht : t ∈ forest.flatMap Tree.listing) :
    (t.listing.map Tree.id).Nodup := by
  obtain ⟨root, hroot, ht⟩ := List.mem_flatMap.mp ht
  have hsublist : t.listing.Sublist (forest.flatMap Tree.listing) :=
    (Tree.listing_sublist ht).trans (sublist_flatMap_of_mem Tree.listing hroot)
  have hnodup := ws.nodup_ids
  rw [h.ids_eq] at hnodup
  exact hnodup.sublist (hsublist.map Tree.id)

/-- The rest of a chain shares no id with its first block and the inputs of this. -/
theorem own_disjoint (h : ws.Lists forest) (ht : t ∈ forest.flatMap Tree.listing) {u : Tree}
    (hu : t.next = some u) {id : BlockId} (hown : id ∈ t.own.map Tree.id) :
    id ∉ u.listing.map Tree.id := by
  have hnodup := h.nodup_ids_listing ht
  rw [t.listing_eq_own, List.map_append] at hnodup
  obtain ⟨-, -, hdisjoint⟩ := List.nodup_append.mp hnodup
  intro hrest
  refine hdisjoint id hown id ?_ rfl
  rw [hu]
  simpa using hrest

/-- What is found under the id of a tree is its block. -/
theorem loads_of_find? (h : ws.Lists forest) (ht : t ∈ forest.flatMap Tree.listing)
    (hfound : ws.find? t.id = some c) : t.Loads c := by
  obtain ⟨d, hd, hload⟩ := h.exists_block ht
  obtain rfl := Option.some.inj (hfound.symm.trans hd)
  exact hload

/-- The next block of a chain is that of the next tree. -/
theorem exists_next (h : ws.Lists forest) (ht : t ∈ forest.flatMap Tree.listing)
    (hload : t.Loads b) {id : BlockId} (hnext : b.next = some id)
    (hfound : ws.find? id = some c) :
    ∃ u, t.next = some u ∧ u ∈ forest.flatMap Tree.listing ∧ u.Loads c := by
  rw [hload.next_eq] at hnext
  obtain ⟨u, hu, rfl⟩ := Option.map_eq_some_iff.mp hnext
  have hchild : u ∈ t.children := List.mem_append_right _ (Option.mem_toList.mpr hu)
  have hmem := mem_of_mem_children ht hchild
  exact ⟨u, hu, hmem, h.loads_of_find? hmem hfound⟩

/-- The first block of a body is that of a tree in an input. -/
theorem exists_body (h : ws.Lists forest) (ht : t ∈ forest.flatMap Tree.listing)
    (hload : t.Loads b) {slot : String} {id : BlockId} (hid : b.statements.get? slot = some id)
    (hfound : ws.find? id = some c) :
    ∃ u, (slot, u) ∈ t.inputs ∧ u ∈ forest.flatMap Tree.listing ∧ u.Loads c := by
  obtain ⟨-, -, u, hu, rfl⟩ := hload.exists_input_of_statement (h.ordered t ht) hid
  have hchild : u ∈ t.children := List.mem_append_left _ (List.mem_map_of_mem hu)
  have hmem := mem_of_mem_children ht hchild
  exact ⟨u, hu, hmem, h.loads_of_find? hmem hfound⟩

/-- Only loops have statement slots, and only one for their body. -/
theorem loop_of_statement (h : ws.Lists forest) (hb : b ∈ ws.blocks) {slot : String} {id : BlockId}
    (hid : b.statements.get? slot = some id) :
    slot = Kind.bodySlot ∧ ∃ l, b.kind = .ok (.loop l) := by
  obtain ⟨t, ht, hload⟩ := h.exists_tree hb
  obtain ⟨hslot, hloop, -⟩ := hload.exists_input_of_statement (h.ordered t ht) hid
  exact ⟨hslot, hloop⟩

/-! ## One link to each block -/

theorem nodup_referenced (h : ws.Lists forest) : ws.referenced.Nodup :=
  (List.nodup_append.mp (h.ids_perm.nodup_iff.mp ws.nodup_ids)).2.1

/-- No block refers to another twice. -/
theorem nodup_references (h : ws.Lists forest) (hb : b ∈ ws.blocks) : b.references.Nodup :=
  (List.nodup_flatMap.mp h.nodup_referenced).1 b (by simpa using hb)

/-- No two blocks refer to one. -/
theorem parent_unique (h : ws.Lists forest) (hb : b ∈ ws.blocks) (hc : c ∈ ws.blocks) {id : BlockId}
    (hid : id ∈ b.references) (hid' : id ∈ c.references) : b = c := by
  by_contra hne
  have hdisjoint := (List.nodup_flatMap.mp h.nodup_referenced).2
  have : Std.Symm (Function.onFun List.Disjoint Block.references) := ⟨fun _ _ h => h.symm⟩
  exact hdisjoint.forall (by simpa using hb) (by simpa using hc) hne hid hid'

end Workspace.Lists

end BlockSteps

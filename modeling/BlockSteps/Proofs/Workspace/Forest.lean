import Mathlib
import BlockSteps.Proofs.Workspace.Reference
import BlockSteps.Proofs.Workspace.Retained

/-!
# Workspaces that list a forest

A loaded workspace is a forest written down block by block.  `Workspace.Lists` says so: the blocks
are what the trees of the listing become, in this order, and no two of them share an id.  Everything
that later proofs need of a loaded workspace is read off this one relation:

* every block is of the catalog (`Lists.kind`) and every reference has its block
  (`Lists.resolves`);
* references lead from trees to trees attached to them, so there are no circles (`Lists.acyclic`);
* the ids are those of the roots and, once each, those that are referred to (`Lists.ids_perm`), so
  the top blocks are the roots (`Lists.topIds_eq`).

**Main statement.**  `lists_of_ofText`: a workspace that was loaded from a text lists the retained
forest of that text.
-/

namespace BlockSteps

/-! ## The block of a tree -/

/-- The inputs that a predicate picks keep their order. -/
theorem entries_inputIds {inputs : List (String × Tree)}
    (h : inputs.Pairwise fun p q => p.1 < q.1) (pick : String → Bool) :
    (inputIds pick inputs).entries =
      (inputs.filter fun p => pick p.1).map fun p => (p.1, p.2.id) := by
  unfold inputIds
  apply Dict.entries_ofList
  rw [List.pairwise_map]
  exact h.filter _

namespace Tree.Loads

variable {t : Tree} {b : Block}

theorem id_eq (h : t.Loads b) : b.id = t.id := by
  obtain ⟨kind, literals, -, -, rfl⟩ := h
  rfl

theorem type_eq (h : t.Loads b) : b.type = t.type := by
  obtain ⟨kind, literals, -, -, rfl⟩ := h
  rfl

theorem kind (h : t.Loads b) : ∃ k, b.kind = .ok k ∧ t.kind = .ok k := by
  obtain ⟨kind, literals, hkind, -, rfl⟩ := h
  refine ⟨kind, ?_, hkind⟩
  unfold Tree.kind at hkind
  simp only [Block.kind, Tree.block]
  cases hk : Kind.ofTag? t.type with
  | none => simp [hk] at hkind
  | some k => simpa [hk] using hkind

/-- A block refers to the trees attached to its tree, to each once. -/
theorem references_perm (h : t.Loads b) (ht : t.Ordered) :
    b.references.Perm (t.children.map Tree.id) := by
  obtain ⟨kind, literals, -, -, rfl⟩ := h
  have hsplit := List.filter_append_perm (fun p => !kind.statementSlots.contains p.1) t.inputs
  simp only [Bool.not_not] at hsplit
  have hinputs := hsplit.map fun p => p.2.id
  rw [List.map_append] at hinputs
  have hnext : (t.next.map Tree.id).toList = t.next.toList.map Tree.id := by
    cases t.next with
    | none => rfl
    | some n => rfl
  simp only [Block.references, Tree.block, Dict.values, entries_inputIds ht, List.map_map, hnext,
    Tree.children, List.map_append]
  exact hinputs.append_right _

end Tree.Loads

/-! ## The relation -/

theorem exists_of_forall₂ {α β : Type} {R : α → β → Prop} {xs : List α} {ys : List β}
    (h : List.Forall₂ R xs ys) {y : β} (hy : y ∈ ys) : ∃ x ∈ xs, R x y := by
  induction h with
  | nil => exact absurd hy List.not_mem_nil
  | cons hxy _ ih =>
    rcases List.mem_cons.mp hy with rfl | hy
    · exact ⟨_, List.mem_cons_self, hxy⟩
    · obtain ⟨x, hx, hxy⟩ := ih hy
      exact ⟨x, List.mem_cons_of_mem _ hx, hxy⟩

/-- The blocks of the workspace are those that the trees of the forest become, in the order of
flattening. -/
structure Workspace.Lists (ws : Workspace) (forest : List Tree) : Prop where
  /-- One block for each tree. -/
  loads : List.Forall₂ Tree.Loads (forest.flatMap Tree.listing) ws.blocks.toList
  /-- The inputs of the trees are in order. -/
  ordered : ∀ t ∈ forest.flatMap Tree.listing, t.Ordered

namespace Workspace

variable {ws : Workspace} {forest : List Tree}

/-- A workspace that was loaded from a text lists the retained forest of the text. -/
theorem lists_of_ofText {order : TopOrder} {text : String} (h : ofText order text = .ok ws) :
    ∃ blocks, SavedBlock.ofText text = .ok blocks ∧
      ws.Lists ((order.arrange blocks).map SavedBlock.retained) := by
  unfold ofText at h
  split at h
  · cases h
  · rename_i blocks hblocks
    split at h
    · cases h
    · rename_i loaded hloaded
      cases h
      obtain ⟨bs, hbs, hinsert⟩ := flattenAll_eq_ok_iff.mp hloaded
      obtain ⟨hnodup, rfl⟩ := ofBlocks_eq_ok_iff.mp hinsert
      exact ⟨blocks, hblocks, hbs, ordered_of_ofText order hblocks⟩

/-- A text with two chains: a loop that has a shadow for its count and for its body a real block
over a shadow that could not be loaded, and a picture.  The loop stands higher, but so far to the
right that it is seen below the picture. -/
def twoChainsText : String := "\x7b\"blocks\": \x7b\"blocks\": [
  \x7b\"type\": \"controls_repeat_ext\", \"id\": \"loop\", \"x\": 100, \"y\": 40, \"inputs\": \x7b
    \"TIMES\": \x7b\"shadow\":
      \x7b\"type\": \"math_number\", \"id\": \"n\", \"fields\": \x7b\"NUM\": 3\x7d\x7d\x7d,
    \"DO\": \x7b\"block\": \x7b\"type\": \"wait_time_block\", \"id\": \"w\"\x7d,
      \"shadow\": \x7b\"type\": \"unknown\", \"id\": \"w\"\x7d\x7d\x7d,
    \"next\": \x7b\"block\": \x7b\"type\": \"controls_repeat\", \"id\": \"idle\"\x7d\x7d\x7d,
  \x7b\"type\": \"acquire_frame_block\", \"id\": \"f\", \"y\": 42\x7d]\x7d\x7d"

/-- The blocks of `twoChainsText`. -/
def twoChains : Workspace where
  blocks := #[
    { id := "w", type := "wait_time_block" },
    { id := "n", type := "math_number", fields := .ofList [("NUM", .number 3)] },
    { id := "loop", type := "controls_repeat_ext", values := .ofList [("TIMES", "n")],
      statements := .ofList [("DO", "w")], next := some "idle" },
    { id := "idle", type := "controls_repeat" },
    { id := "f", type := "acquire_frame_block" }]

set_option maxRecDepth 5000 in
theorem ofText_twoChainsText : ofText .asListed twoChainsText = .ok twoChains := by
  apply eq_ok_of_toOption
  -- The characters of the literal are written out first; decoding its bytes takes far longer.
  rw [ofText, SavedBlock.ofText, Json.readFrom,
    Json.Draft.ofText_eq (show twoChainsText = String.ofList _ by exact rfl)]
  decide +kernel

namespace Lists

/-! ## Blocks and trees -/

theorem ids_eq (h : ws.Lists forest) : ws.ids = (forest.flatMap Tree.listing).map Tree.id := by
  unfold ids
  rw [← List.forall₂_eq_eq_eq, List.forall₂_map_left_iff, List.forall₂_map_right_iff]
  exact h.loads.flip.imp fun _ _ hload => Tree.Loads.id_eq hload

theorem size_eq (h : ws.Lists forest) : ws.size = (forest.flatMap Tree.listing).length := by
  have := congrArg List.length h.ids_eq
  simpa [ids, size] using this

/-- Every block is what some tree becomes. -/
theorem exists_tree (h : ws.Lists forest) {b : Block} (hb : b ∈ ws.blocks) :
    ∃ t ∈ forest.flatMap Tree.listing, t.Loads b :=
  exists_of_forall₂ h.loads (by simpa using hb)

/-- Every tree becomes the block that is found under its id. -/
theorem exists_block (h : ws.Lists forest) {t : Tree} (ht : t ∈ forest.flatMap Tree.listing) :
    ∃ b, ws.find? t.id = some b ∧ t.Loads b := by
  obtain ⟨b, hb, hload⟩ := exists_of_forall₂ h.loads.flip ht
  have hload : t.Loads b := hload
  refine ⟨b, ?_, hload⟩
  rw [← hload.id_eq]
  exact find?_of_mem (by simpa using hb)

/-- The id tells the tree. -/
theorem tree_unique (h : ws.Lists forest) {t u : Tree} (ht : t ∈ forest.flatMap Tree.listing)
    (hu : u ∈ forest.flatMap Tree.listing) (hid : t.id = u.id) : t = u := by
  have hnodup := ws.nodup_ids
  rw [h.ids_eq] at hnodup
  exact List.inj_on_of_nodup_map hnodup ht hu hid

theorem mem_of_mem_children {t c : Tree} (ht : t ∈ forest.flatMap Tree.listing)
    (hc : c ∈ t.children) : c ∈ forest.flatMap Tree.listing := by
  obtain ⟨root, hroot, ht⟩ := List.mem_flatMap.mp ht
  exact List.mem_flatMap.mpr ⟨root, hroot, Tree.mem_listing_of_mem_children ht hc⟩

/-! ## Kinds and references -/

/-- Every block is of the catalog. -/
theorem kind (h : ws.Lists forest) {b : Block} (hb : b ∈ ws.blocks) : ∃ k, b.kind = .ok k := by
  obtain ⟨t, -, hload⟩ := h.exists_tree hb
  obtain ⟨k, hk, -⟩ := hload.kind
  exact ⟨k, hk⟩

/-- A reference of the block of a tree leads to the block of a tree attached to it. -/
theorem exists_child (h : ws.Lists forest) {t : Tree} {b : Block}
    (ht : t ∈ forest.flatMap Tree.listing) (hload : t.Loads b) {id : BlockId}
    (hid : id ∈ b.references) :
    ∃ c ∈ t.children, ∃ d, ws.find? id = some d ∧ c.Loads d := by
  have hid := (hload.references_perm (h.ordered t ht)).mem_iff.mp hid
  obtain ⟨c, hc, rfl⟩ := List.mem_map.mp hid
  exact ⟨c, hc, h.exists_block (mem_of_mem_children ht hc)⟩

/-- Every reference has its block. -/
theorem resolves (h : ws.Lists forest) {b : Block} (hb : b ∈ ws.blocks) {id : BlockId}
    (hid : id ∈ b.references) : ∃ c, ws.find? id = some c := by
  obtain ⟨t, ht, hload⟩ := h.exists_tree hb
  obtain ⟨-, -, d, hd, -⟩ := h.exists_child ht hload hid
  exact ⟨d, hd⟩

/-- Along references the listings of the trees get shorter. -/
theorem exists_shorter (h : ws.Lists forest) {b c : Block} (hbc : Relation.TransGen ws.RefersTo b c)
    {t : Tree} (ht : t ∈ forest.flatMap Tree.listing) (hload : t.Loads b) :
    ∃ u ∈ forest.flatMap Tree.listing, u.Loads c ∧ u.listing.length < t.listing.length := by
  have step : ∀ {d e : Block} {v : Tree}, v ∈ forest.flatMap Tree.listing → v.Loads d →
      ws.RefersTo d e →
      ∃ u ∈ forest.flatMap Tree.listing, u.Loads e ∧ u.listing.length < v.listing.length := by
    rintro d e v hv hd ⟨id, hid, he⟩
    obtain ⟨u, hu, e', he', hload'⟩ := h.exists_child hv hd hid
    obtain rfl := Option.some.inj (he.symm.trans he')
    exact ⟨u, mem_of_mem_children hv hu, hload', Tree.length_listing_lt hu⟩
  induction hbc with
  | single hbc => exact step ht hload hbc
  | tail _ hcd ih =>
    obtain ⟨u, hu, hc, hlt⟩ := ih
    obtain ⟨v, hv, hd, hlt'⟩ := step hu hc hcd
    exact ⟨v, hv, hd, Nat.lt_trans hlt' hlt⟩

theorem acyclic (h : ws.Lists forest) : ws.Acyclic := by
  intro b hbb
  have hb : b ∈ ws.blocks := by
    obtain ⟨c, -, hcb⟩ := Relation.TransGen.tail'_iff.mp hbb
    exact hcb.mem
  obtain ⟨t, ht, hload⟩ := h.exists_tree hb
  obtain ⟨u, hu, hload', hlt⟩ := h.exists_shorter hbb ht hload
  obtain rfl := h.tree_unique ht hu (hload.id_eq.symm.trans hload'.id_eq)
  exact Nat.lt_irrefl _ hlt

/-! ## Roots -/

/-- What is referred to is what is attached to some tree. -/
theorem referenced_perm (h : ws.Lists forest) :
    ws.referenced.Perm (((forest.flatMap Tree.listing).flatMap Tree.children).map Tree.id) := by
  have key : ∀ {ts : List Tree} {bs : List Block}, List.Forall₂ Tree.Loads ts bs →
      (∀ t ∈ ts, t.Ordered) →
      (bs.flatMap Block.references).Perm ((ts.flatMap Tree.children).map Tree.id) := by
    intro ts bs hloads
    induction hloads with
    | nil => exact fun _ => .refl _
    | cons hload _ ih =>
      intro hordered
      rw [List.forall_mem_cons] at hordered
      rw [List.flatMap_cons, List.flatMap_cons, List.map_append]
      exact (hload.references_perm hordered.1).append (ih hordered.2)
  exact key h.loads h.ordered

/-- The ids are those of the roots and, once each, those that are referred to. -/
theorem ids_perm (h : ws.Lists forest) : ws.ids.Perm (forest.map Tree.id ++ ws.referenced) := by
  have hlisting := (listing_perm_roots forest).map Tree.id
  rw [List.map_append] at hlisting
  rw [h.ids_eq]
  exact hlisting.trans (h.referenced_perm.symm.append_left _)

/-- The top blocks are the roots. -/
theorem topIds_eq (h : ws.Lists forest) : ws.topIds = forest.map Tree.id := by
  have hnodup := h.ids_perm.nodup_iff.mp ws.nodup_ids
  obtain ⟨-, -, hdisjoint⟩ := List.nodup_append.mp hnodup
  have hroots : (forest.map Tree.id).filter (fun id => !ws.referenced.contains id) =
      forest.map Tree.id := by
    rw [List.filter_eq_self]
    intro id hid
    simpa using fun hmem => hdisjoint id hid id hmem rfl
  have hreferenced : ws.referenced.filter (fun id => !ws.referenced.contains id) = [] := by
    rw [List.filter_eq_nil_iff]
    intro id hid
    simpa using hid
  have hsublist : (forest.map Tree.id).Sublist ws.topIds := by
    have hsub := ((roots_sublist_listing forest).map Tree.id).filter
      fun id => !ws.referenced.contains id
    rw [hroots, ← h.ids_eq] at hsub
    exact hsub
  have hlength : (forest.map Tree.id).length = ws.topIds.length := by
    have hperm := h.ids_perm.filter fun id => !ws.referenced.contains id
    rw [List.filter_append, hroots, hreferenced, List.append_nil] at hperm
    exact hperm.length_eq.symm
  exact (hsublist.eq_of_length hlength).symm

/-- A block that is no root is referred to once, a root is not referred to. -/
theorem count_referenced (h : ws.Lists forest) {id : BlockId} (hid : id ∈ ws.ids) :
    ws.referenced.count id = if id ∈ ws.topIds then 0 else 1 := by
  have hcount : (ws.topIds ++ ws.referenced).count id = 1 := by
    rw [h.topIds_eq, ← h.ids_perm.count_eq]
    exact List.count_eq_one_of_mem ws.nodup_ids hid
  rw [List.count_append] at hcount
  split
  · rename_i htop
    have : 0 < ws.topIds.count id := List.count_pos_iff.mpr htop
    omega
  · rename_i htop
    rw [List.count_eq_zero_of_not_mem htop] at hcount
    omega

end Lists

end Workspace

end BlockSteps

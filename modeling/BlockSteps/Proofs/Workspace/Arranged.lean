import Mathlib
import BlockSteps.Proofs.Decimal.TotalOrder
import BlockSteps.Proofs.Workspace.Forest

/-!
# Loading in either order

The chains of a saved workspace are taken from top to bottom on the canvas, or as the text lists
them. The order is chosen before anything is loaded, so it decides in which order blocks are
inserted and which of several errors is met.  It does not decide whether there is an error.

* `stablySorts_arrange`: from top to bottom means sorted by the height at which the top blocks are
  seen, and those at one height as they are listed.  These heights are numbers, so they are sorted
  by what they stand for (`rank_le_iff`).
* `exists_ofText_of_order`: a text that loads in one order loads in the other, with the same blocks.
* `ofText_eq_of_movesNested`: the places of the blocks inside other blocks are read and then not
  looked at again.
-/

namespace BlockSteps

/-! ## Stable sorting -/

/-- The second list is the first in the order of a key, equal keys in the order they were listed. -/
structure StablySorts {α : Type} (key : α → Int) (listed sorted : List α) : Prop where
  /-- Nothing is lost, and nothing is added. -/
  perm : sorted.Perm listed
  /-- The keys do not fall. -/
  ordered : sorted.Pairwise fun a b => key a ≤ key b
  /-- Equal keys keep their order. -/
  stable : ∀ k, (sorted.filter fun a => key a = k) = listed.filter fun a => key a = k

theorem stablySorts_mergeSort {α : Type} (key : α → Int) (xs : List α) :
    StablySorts key xs (xs.mergeSort fun a b => decide (key a ≤ key b)) := by
  have htrans : ∀ a b c : α, decide (key a ≤ key b) = true → decide (key b ≤ key c) = true →
      decide (key a ≤ key c) = true := by
    simp only [decide_eq_true_eq]
    exact fun _ _ _ => Int.le_trans
  have htotal : ∀ a b : α, (decide (key a ≤ key b) || decide (key b ≤ key a)) = true := by
    simp only [Bool.or_eq_true, decide_eq_true_eq]
    exact fun _ _ => Int.le_total _ _
  have hperm := List.mergeSort_perm xs fun a b => decide (key a ≤ key b)
  refine ⟨hperm, ?_, fun k => ?_⟩
  · simpa only [decide_eq_true_eq] using List.pairwise_mergeSort htrans htotal xs
  · -- What has the key `k` is sorted as it stands, so sorting keeps it as a sublist.
    have hequal : (xs.filter fun a => key a = k).Pairwise fun a b =>
        decide (key a ≤ key b) = true := by
      refine List.pairwise_of_forall_mem_list fun a ha b hb => ?_
      simp only [List.mem_filter, decide_eq_true_eq] at ha hb ⊢
      omega
    have hsublist := (List.sublist_mergeSort htrans htotal hequal List.filter_sublist).filter
      fun a => decide (key a = k)
    rw [List.filter_filter] at hsublist
    simp only [Bool.and_self] at hsublist
    exact (hsublist.eq_of_length (hperm.filter _).length_eq.symm).symm

/-! ## Heights -/

/-- The height at which a block is seen, as a rank among all doubles. -/
def SavedBlock.rank (b : SavedBlock) : Int := Decimal.totalRank b.tiltedHeight

/-- From top to bottom, the top blocks are sorted by the height at which they are seen. -/
theorem TopOrder.stablySorts_arrange (saved : List SavedBlock) :
    StablySorts SavedBlock.rank saved (TopOrder.position.arrange saved) :=
  stablySorts_mergeSort SavedBlock.rank saved

/-- The place of a block on the canvas is finite. -/
structure SavedBlock.Placed (b : SavedBlock) : Prop where
  /-- It is finitely far from the left edge. -/
  x : b.x.isFinite = true
  /-- It is finitely far from the upper edge. -/
  y : b.y.isFinite = true

theorem SavedBlock.gives_placed (height : Nat) :
    Json.Gives (SavedBlock.readWithin height) SavedBlock.Placed := by
  cases height with
  | zero =>
    intro d b hb
    cases hb
  | succ height =>
    have hother : ∀ {β : Type} (reader : Json.Reader β), Json.Gives reader fun _ => True :=
      fun _ _ _ _ => trivial
    have hzero : (0 : Float).isFinite = true := rfl
    refine Json.gives_record ⟨hzero, hzero⟩ ?_
    simp only [SavedBlock.record, List.forall_mem_cons]
    refine ⟨?type, ?id, ?x, ?y, ?fields, ?inputs, ?next, List.forall_mem_nil _⟩
    case x => exact Json.Field.keeps_of Json.gives_readNumber fun v r hv hr => ⟨hv, hr.y⟩
    case y => exact Json.Field.keeps_of Json.gives_readNumber fun v r hv hr => ⟨hr.x, hv⟩
    case type | id | fields | inputs | next =>
      exact Json.Field.keeps_of (hother _) fun v r _ hr => ⟨hr.x, hr.y⟩

/-- The height at which a block is seen may be infinite, but it is a number. -/
theorem SavedBlock.Placed.isNumber {b : SavedBlock} (h : b.Placed) :
    Decimal.IsNumber b.tiltedHeight :=
  Decimal.isNumber_add h.y (Decimal.isNumber_mul rfl h.x)

/-- The ranks of the blocks of a text order them by their heights. -/
theorem SavedBlock.rank_le_iff {text : String} {saved : List SavedBlock}
    (h : SavedBlock.ofText text = .ok saved) {a b : SavedBlock} (ha : a ∈ saved) (hb : b ∈ saved) :
    a.rank ≤ b.rank ↔ Decimal.NotAfter a.tiltedHeight b.tiltedHeight := by
  have hplaced := SavedBlock.forall_of_ofText (fun d b hb => gives_placed d.height d b hb) h
  exact Decimal.totalRank_le_iff (hplaced a ha).isNumber (hplaced b hb).isNumber

/-! ## Loading -/

namespace Workspace

variable {ws : Workspace} {order : TopOrder}

theorem ofText_eq_ok_iff {text : String} :
    ofText order text = .ok ws ↔
      ∃ saved, SavedBlock.ofText text = .ok saved ∧ ofSaved order saved = .ok ws := by
  unfold ofText
  cases SavedBlock.ofText text with
  | error e => exact ⟨nofun, nofun⟩
  | ok saved =>
    dsimp only
    cases hloaded : ofSaved order saved with
    | error e => simp [hloaded]
    | ok loaded => simp [hloaded]

/-- Trees that can be flattened can be flattened in every order, to the same blocks. -/
theorem exists_flattenAll_of_perm {ts us : List Tree} (h : ts.Perm us)
    (hts : flattenAll ts empty = .ok ws) :
    ∃ ws', flattenAll us empty = .ok ws' ∧ ws.blocks.toList.Perm ws'.blocks.toList := by
  obtain ⟨bs, hbs, hinsert⟩ := flattenAll_eq_ok_iff.mp hts
  obtain ⟨hdistinct, rfl⟩ := ofBlocks_eq_ok_iff.mp hinsert
  obtain ⟨cs, hcs, hperm⟩ := List.perm_comp_forall₂ (h.symm.flatMap_right Tree.listing) hbs
  have hdistinct' := (hperm.map Block.id).nodup_iff.mpr hdistinct
  exact ⟨⟨cs.toArray, hdistinct'⟩,
    flattenAll_eq_ok_iff.mpr ⟨cs, hcs, ofBlocks_eq_ok_iff.mpr ⟨hdistinct', rfl⟩⟩, hperm.symm⟩

/-- A text that loads in one order loads in the other, with the same blocks. -/
theorem exists_ofText_of_order {text : String} (order' : TopOrder)
    (h : ofText order text = .ok ws) :
    ∃ ws', ofText order' text = .ok ws' ∧ ws.blocks.toList.Perm ws'.blocks.toList := by
  obtain ⟨saved, hsaved, h⟩ := ofText_eq_ok_iff.mp h
  have hperm := (order.arrange_perm saved).trans (order'.arrange_perm saved).symm
  obtain ⟨ws', hws', hblocks⟩ := exists_flattenAll_of_perm (hperm.map SavedBlock.retained) h
  exact ⟨ws', ofText_eq_ok_iff.mpr ⟨saved, hsaved, hws'⟩, hblocks⟩

/-- The top blocks are the saved ones, in the chosen order. -/
theorem topIds_of_ofText {text : String} {saved : List SavedBlock}
    (h : ofText order text = .ok ws) (hsaved : SavedBlock.ofText text = .ok saved) :
    ws.topIds = (order.arrange saved).map SavedBlock.id := by
  have hid : ∀ b : SavedBlock, b.retained.id = b.id := fun b => by
    rw [SavedBlock.retaining_retained b]
  obtain ⟨blocks, hblocks, hlists⟩ := lists_of_ofText h
  obtain rfl := Except.ok.inj (hsaved.symm.trans hblocks)
  simp only [hlists.topIds_eq, List.map_map, Function.comp_def, hid]

end Workspace

/-! ## Places of nested blocks -/

mutual

/-- A block with itself and all blocks inside it moved to the corner of the canvas. -/
def SavedBlock.unplaced : SavedBlock → SavedBlock
  | ⟨type, id, _, _, fields, inputs, next⟩ =>
    ⟨type, id, 0, 0, fields, unplacedInputs inputs, unplacedNext next⟩

/-- Inputs with all blocks in them moved to the corner. -/
def unplacedInputs :
    List (String × Connection SavedBlock) → List (String × Connection SavedBlock)
  | [] => []
  | (slot, c) :: rest => (slot, unplacedConnection c) :: unplacedInputs rest

/-- What comes next with all blocks in it moved to the corner. -/
def unplacedNext : Option (Connection SavedBlock) → Option (Connection SavedBlock)
  | none => none
  | some c => some (unplacedConnection c)

/-- A connection with its blocks moved to the corner. -/
def unplacedConnection : Connection SavedBlock → Connection SavedBlock
  | ⟨block, shadow⟩ => ⟨unplacedOptional block, unplacedOptional shadow⟩

/-- A block that may be there, moved to the corner. -/
def unplacedOptional : Option SavedBlock → Option SavedBlock
  | none => none
  | some b => some b.unplaced

end

/-- Two blocks that stand in one place and differ at most in the places of the blocks in them. -/
structure SavedBlock.MovesNested (a b : SavedBlock) : Prop where
  /-- They are as far from the left edge. -/
  x : a.x = b.x
  /-- They are as far from the upper edge. -/
  y : a.y = b.y
  /-- They differ in nothing but places. -/
  unplaced : a.unplaced = b.unplaced

mutual

/-- The retained part of a block does not have its place. -/
theorem SavedBlock.retained_unplaced : ∀ b : SavedBlock, b.unplaced.retained = b.retained
  | ⟨type, id, x, y, fields, inputs, next⟩ => by
    simp only [SavedBlock.unplaced, SavedBlock.retained, retainedInputs_unplaced inputs,
      retainedNext_unplaced next]

theorem retainedInputs_unplaced :
    ∀ inputs, retainedInputs (unplacedInputs inputs) = retainedInputs inputs
  | [] => by simp only [unplacedInputs]
  | (slot, ⟨some b, _⟩) :: rest => by
    simp only [unplacedInputs, unplacedConnection, unplacedOptional, retainedInputs,
      SavedBlock.retained_unplaced b, retainedInputs_unplaced rest]
  | (slot, ⟨none, some b⟩) :: rest => by
    simp only [unplacedInputs, unplacedConnection, unplacedOptional, retainedInputs,
      SavedBlock.retained_unplaced b, retainedInputs_unplaced rest]
  | (slot, ⟨none, none⟩) :: rest => by
    simp only [unplacedInputs, unplacedConnection, unplacedOptional, retainedInputs,
      retainedInputs_unplaced rest]

theorem retainedNext_unplaced : ∀ next, retainedNext (unplacedNext next) = retainedNext next
  | none => by simp only [unplacedNext]
  | some ⟨some b, _⟩ => by
    simp only [unplacedNext, unplacedConnection, unplacedOptional, retainedNext,
      SavedBlock.retained_unplaced b]
  | some ⟨none, some b⟩ => by
    simp only [unplacedNext, unplacedConnection, unplacedOptional, retainedNext,
      SavedBlock.retained_unplaced b]
  | some ⟨none, none⟩ => by simp only [unplacedNext, unplacedConnection, unplacedOptional]

end

/-- Of a saved top block, loading looks at its rank and its retained part. -/
def SavedBlock.ranked (b : SavedBlock) : Int × Tree := (b.rank, b.retained)

theorem SavedBlock.MovesNested.ranked_eq {a b : SavedBlock} (h : a.MovesNested b) :
    a.ranked = b.ranked := by
  have hrank : a.rank = b.rank := by
    unfold rank tiltedHeight
    rw [h.x, h.y]
  have hretained : a.retained = b.retained := by
    rw [← a.retained_unplaced, h.unplaced, b.retained_unplaced]
  rw [ranked, ranked, hrank, hretained]

/-- The order of the retained parts depends on nothing else. -/
theorem TopOrder.arrange_retained_eq (order : TopOrder) {saved moved : List SavedBlock}
    (h : saved.map SavedBlock.ranked = moved.map SavedBlock.ranked) :
    (order.arrange saved).map SavedBlock.retained =
      (order.arrange moved).map SavedBlock.retained := by
  have hranked : (order.arrange saved).map SavedBlock.ranked =
      (order.arrange moved).map SavedBlock.ranked := by
    cases order with
    | asListed => exact h
    | position =>
      have hsort : ∀ blocks : List SavedBlock,
          (TopOrder.position.arrange blocks).map SavedBlock.ranked =
            (blocks.map SavedBlock.ranked).mergeSort fun p q => decide (p.1 ≤ q.1) :=
        fun blocks => List.map_mergeSort fun _ _ _ _ => rfl
      rw [hsort, hsort, h]
  have hsnd : ∀ blocks : List SavedBlock,
      (blocks.map SavedBlock.ranked).map Prod.snd = blocks.map SavedBlock.retained := fun blocks =>
    List.map_map
  rw [← hsnd, ← hsnd, hranked]

/-- The places of the blocks inside the top blocks do not matter, in either order. -/
theorem Workspace.ofText_eq_of_movesNested (order : TopOrder) {text text' : String}
    {saved moved : List SavedBlock} (hsaved : SavedBlock.ofText text = .ok saved)
    (hmoved : SavedBlock.ofText text' = .ok moved)
    (h : List.Forall₂ SavedBlock.MovesNested saved moved) :
    ofText order text = ofText order text' := by
  have hranked : saved.map SavedBlock.ranked = moved.map SavedBlock.ranked := by
    rw [← List.forall₂_eq_eq_eq, List.forall₂_map_left_iff, List.forall₂_map_right_iff]
    exact h.imp fun _ _ => SavedBlock.MovesNested.ranked_eq
  unfold ofText ofSaved
  rw [hsaved, hmoved]
  dsimp only
  rw [order.arrange_retained_eq hranked]

end BlockSteps

import Mathlib
import BlockSteps.Proofs.Compile.Rearranged
import BlockSteps.Proofs.Workspace.Arranged

/-!
# The order of chains is presentation

Where the top blocks stand on the canvas decides the order of the chains, and nothing else.  This
puts together what `Arranged` says of loading and what `Rearranged` says of compiling.

**Main statement.**  `order_is_presentation`, for every text: it loads in both orders or in neither;
the two workspaces hold the same blocks, and their top blocks are the saved ones, in one of them
sorted by the height at which they are seen, which is a number; under all options both are compiled
or neither, and the documents are the same segments in the order of the respective heads
(`SameButOrder`).  And moving blocks that are inside other blocks changes nothing at all.
-/

namespace BlockSteps.Workspace

/-- Two workspaces that hold the same blocks and make the same programs, but for the order of the
chains. -/
structure SameButOrder (ws ws' : Workspace) : Prop where
  /-- They hold the same blocks. -/
  blocks : ws.blocks.toList.Perm ws'.blocks.toList
  /-- Under all options both can be compiled or neither. -/
  compiles : ∀ opts, (∃ doc, ws.compile opts = .ok doc) ↔ ∃ doc, ws'.compile opts = .ok doc
  /-- Every head contributes the same steps to both documents, and these are all their steps. -/
  segments : ∀ {opts doc doc'}, ws.compile opts = .ok doc → ws'.compile opts = .ok doc' →
    ∃ segment : BlockId → List Step,
      (∀ id ∈ ws.topIds,
        ws.Contributes opts id (segment id) ∧ ws'.Contributes opts id (segment id)) ∧
      doc = Document.assemble opts.ids (ws.topIds.flatMap segment) ∧
      doc' = Document.assemble opts.ids (ws'.topIds.flatMap segment)

variable {ws ws' : Workspace}

theorem topIds_perm (h : ws.blocks.toList.Perm ws'.blocks.toList) :
    ws.topIds.Perm ws'.topIds := by
  have hreferenced : ws.referenced.Perm ws'.referenced := h.flatMap_right Block.references
  have hcontains : ∀ id, ws.referenced.contains id = ws'.referenced.contains id := fun id => by
    rw [Bool.eq_iff_iff, List.contains_iff_mem, List.contains_iff_mem, hreferenced.mem_iff]
  unfold topIds
  simp only [hcontains]
  exact (h.map Block.id).filter _

/-- The order of the blocks is all that it depends on in which order chains are compiled. -/
theorem sameButOrder_of_perm (h : ws.blocks.toList.Perm ws'.blocks.toList) :
    ws.SameButOrder ws' := by
  have hgraph := sameGraph_of_perm h
  have hgraph' := sameGraph_of_perm h.symm
  have hheads := topIds_perm h
  refine ⟨h, fun opts => ⟨?_, ?_⟩, fun {opts doc doc'} hdoc hdoc' => ?_⟩
  · rintro ⟨doc, hdoc⟩
    exact hgraph.exists_compileFrom hheads hdoc
  · rintro ⟨doc, hdoc⟩
    exact hgraph'.exists_compileFrom hheads.symm hdoc
  · obtain ⟨hsegments, hdoc⟩ := compileFrom_eq_segments hdoc
    obtain ⟨-, hdoc'⟩ := compileFrom_eq_segments hdoc'
    rw [← hgraph.segment_eq] at hdoc'
    refine ⟨ws.segment opts, fun id hid => ⟨hsegments id hid, ?_⟩, hdoc, hdoc'⟩
    exact hgraph.contributes_iff.mp (hsegments id hid)

/-- **The order of chains is presentation.**  A text loads from top to bottom exactly if it loads as
listed; the two workspaces are the same but for the order of their chains, and the top blocks of the
first are those of the second, sorted stably by the height at which they are seen.  This is the
distance from the upper edge and the sine of three degrees times the one from the left edge, and it
is sorted by the number that it stands for, a negative zero before the other.  Texts that differ in
the places of nested blocks are one text for loading, in either order. -/
theorem order_is_presentation (text : String) :
    ((∃ ws, ofText .position text = .ok ws) ↔ ∃ ws, ofText .asListed text = .ok ws) ∧
    (∀ placed listed, ofText .position text = .ok placed → ofText .asListed text = .ok listed →
      placed.SameButOrder listed ∧
      ∃ saved sorted, SavedBlock.ofText text = .ok saved ∧
        StablySorts (fun b => Decimal.totalRank (b.y + 0.052335956242943835 * b.x)) saved sorted ∧
        (∀ a ∈ saved, ∀ b ∈ saved,
          Decimal.totalRank (a.y + 0.052335956242943835 * a.x) ≤
              Decimal.totalRank (b.y + 0.052335956242943835 * b.x) ↔
            Decimal.NotAfter (a.y + 0.052335956242943835 * a.x)
              (b.y + 0.052335956242943835 * b.x)) ∧
        listed.topIds = saved.map SavedBlock.id ∧ placed.topIds = sorted.map SavedBlock.id) ∧
    ∀ order text' saved moved, SavedBlock.ofText text = .ok saved →
      SavedBlock.ofText text' = .ok moved → List.Forall₂ SavedBlock.MovesNested saved moved →
      ofText order text = ofText order text' := by
  have hload : ∀ order order', (∃ ws, ofText order text = .ok ws) →
      ∃ ws, ofText order' text = .ok ws := by
    rintro order order' ⟨ws, hws⟩
    obtain ⟨ws', hws', -⟩ := exists_ofText_of_order order' hws
    exact ⟨ws', hws'⟩
  refine ⟨⟨hload _ _, hload _ _⟩, fun placed listed hplaced hlisted => ?_, ?_⟩
  · obtain ⟨saved, hsaved, hlists⟩ := lists_of_ofText hplaced
    obtain ⟨listed', hlisted', hblocks⟩ := exists_ofText_of_order .asListed hplaced
    obtain rfl : listed = listed' := Except.ok.inj (hlisted.symm.trans hlisted')
    refine ⟨sameButOrder_of_perm hblocks, saved, _, hsaved,
      TopOrder.stablySorts_arrange saved,
      fun a ha b hb => SavedBlock.rank_le_iff hsaved ha hb, ?_, ?_⟩
    · exact topIds_of_ofText hlisted hsaved
    · exact topIds_of_ofText hplaced hsaved
  · intro order text' saved moved hsaved hmoved hmoves
    exact ofText_eq_of_movesNested order hsaved hmoved hmoves

/-- A text with four chains.  The second stands higher than the third, but so far to the right that
it is seen below it, and the first and the last stand in one place. -/
def scatteredText : String := "\x7b\"blocks\": \x7b\"blocks\": [
  \x7b\"type\": \"acquire_frame_block\", \"id\": \"a\", \"y\": 100\x7d,
  \x7b\"type\": \"acquire_frame_block\", \"id\": \"b\", \"x\": 100, \"y\": 50\x7d,
  \x7b\"type\": \"acquire_frame_block\", \"id\": \"c\", \"y\": 52.5, \"next\": \x7b\"block\":
    \x7b\"type\": \"acquire_frame_block\", \"id\": \"e\", \"x\": 7, \"y\": 300\x7d\x7d\x7d,
  \x7b\"type\": \"acquire_frame_block\", \"id\": \"d\", \"y\": 100\x7d]\x7d\x7d"

/-- The same text without the place of the nested block. -/
def movedText : String := "\x7b\"blocks\": \x7b\"blocks\": [
  \x7b\"type\": \"acquire_frame_block\", \"id\": \"a\", \"y\": 100\x7d,
  \x7b\"type\": \"acquire_frame_block\", \"id\": \"b\", \"x\": 100, \"y\": 50\x7d,
  \x7b\"type\": \"acquire_frame_block\", \"id\": \"c\", \"y\": 52.5, \"next\": \x7b\"block\":
    \x7b\"type\": \"acquire_frame_block\", \"id\": \"e\"\x7d\x7d\x7d,
  \x7b\"type\": \"acquire_frame_block\", \"id\": \"d\", \"y\": 100\x7d]\x7d\x7d"

/-- A saved picture in a place, with what comes next. -/
def pictureAt (id : BlockId) (x y : Float) (next : Option SavedBlock) : SavedBlock :=
  ⟨"acquire_frame_block", id, x, y, {}, [], next.map fun b => ⟨some b, none⟩⟩

/-- The top blocks of both texts, the nested one in a given place. -/
def scattered (x y : Float) : List SavedBlock := [
  pictureAt "a" 0 100 none,
  pictureAt "b" 100 50 none,
  pictureAt "c" 0 52.5 (pictureAt "e" x y none),
  pictureAt "d" 0 100 none]

set_option maxRecDepth 5000 in
theorem savedOfText_scatteredText : SavedBlock.ofText scatteredText = .ok (scattered 7 300) := by
  rw [SavedBlock.ofText, Json.readFrom,
    Json.Draft.ofText_eq (show scatteredText = String.ofList _ by exact rfl)]
  rfl

set_option maxRecDepth 5000 in
theorem savedOfText_movedText : SavedBlock.ofText movedText = .ok (scattered 0 0) := by
  rw [SavedBlock.ofText, Json.readFrom,
    Json.Draft.ofText_eq (show movedText = String.ofList _ by exact rfl)]
  rfl

theorem movesNested_scattered (x y x' y' : Float) :
    List.Forall₂ SavedBlock.MovesNested (scattered x y) (scattered x' y') :=
  .cons ⟨rfl, rfl, rfl⟩ (.cons ⟨rfl, rfl, rfl⟩ (.cons ⟨rfl, rfl, rfl⟩
    (.cons ⟨rfl, rfl, rfl⟩ .nil)))

theorem arrange_scattered (x y : Float) :
    (TopOrder.position.arrange (scattered x y)).map SavedBlock.id = ["c", "b", "a", "d"] := by
  have hcb : Decimal.totalRank (52.5 + tilt * 0) < Decimal.totalRank (50 + tilt * 100) := by
    decide +kernel
  have hba : Decimal.totalRank (50 + tilt * 100) < Decimal.totalRank (100 + tilt * 0) := by
    decide +kernel
  simp [TopOrder.arrange, scattered, pictureAt, List.mergeSort, SavedBlock.notBelow_eq,
    hcb.not_ge, hba.not_ge, hba.le, (hcb.trans hba).le]

/-- The four chains are listed in one order and taken in another, wherever the nested block is. -/
theorem order_is_presentation_scattered :
    ∃ placed listed, ofText .position scatteredText = .ok placed ∧
      ofText .asListed scatteredText = .ok listed ∧ placed.SameButOrder listed ∧
      listed.topIds = ["a", "b", "c", "d"] ∧ placed.topIds = ["c", "b", "a", "d"] ∧
      ofText .position movedText = .ok placed := by
  obtain ⟨hload, hsame, hmoved⟩ := order_is_presentation scatteredText
  obtain ⟨listed, hlisted⟩ : ∃ ws, ofText .asListed scatteredText = .ok ws := by
    rw [ofText, savedOfText_scatteredText]
    exact ⟨_, rfl⟩
  obtain ⟨placed, hplaced⟩ := hload.mpr ⟨listed, hlisted⟩
  refine ⟨placed, listed, hplaced, hlisted, (hsame placed listed hplaced hlisted).1, ?_, ?_, ?_⟩
  · rw [topIds_of_ofText hlisted savedOfText_scatteredText]
    rfl
  · rw [topIds_of_ofText hplaced savedOfText_scatteredText, arrange_scattered]
  · rw [← hplaced]
    exact (hmoved .position _ _ _ savedOfText_scatteredText savedOfText_movedText
      (movesNested_scattered 7 300 0 0)).symm

end BlockSteps.Workspace

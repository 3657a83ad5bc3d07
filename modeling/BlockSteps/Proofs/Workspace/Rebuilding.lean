import Mathlib
import BlockSteps.Proofs.Workspace.Forest

/-!
# Nothing is lost by flattening

Flattening turns nesting into references by id.  To see that nothing is lost, the way is gone back:
`Workspace.rebuild` follows the fields, the two kinds of slots and the next link of the block under
an id and builds a tree again.  What it is compared with is the tree that was flattened, its fields
taken as literals (`Tree.literal?`), because the graph holds literals and no JSON.

**Main statement.**  `lossless_of_ofText`: of every text that is loaded, the workspace is `Lossless`
for the retained forest.  The top blocks are the roots, rebuilding gives the forest back, every
other block is referred to once, only the body of a loop is in a statement slot, and the blocks
stand in the order of the listing.

**Depth.**  A tree of the forest is rebuilt by as many levels as it has trees in its listing, and so
the number of blocks suffices for all.
-/

namespace BlockSteps

/-- A value under a name, made into another value under this name. -/
def underName {α β : Type} (f : α → Option β) (p : String × α) : Option (String × β) :=
  (f p.2).map fun x => (p.1, x)

/-- A tree of blocks with literal fields. -/
structure LiteralTree where
  /-- The tag of the kind. -/
  type : String
  /-- The id. -/
  id : BlockId
  /-- The fields, in the order of their names. -/
  fields : List (String × FieldValue)
  /-- The inputs that hold a block, in the order of their slots. -/
  inputs : List (String × LiteralTree)
  /-- The block that comes next. -/
  next : Option LiteralTree

/-! ## From the text -/

mutual

/-- The tree with its fields taken as literals, if they are. -/
def Tree.literal? : Tree → Option LiteralTree
  | ⟨type, id, fields, inputs, next⟩ => do
    let fields ← fields.entries.mapM (underName FieldValue.ofJson?)
    let inputs ← literalInputs? inputs
    let next ← literalNext? next
    pure ⟨type, id, fields, inputs, next⟩

/-- The inputs with the fields of their trees taken as literals. -/
def literalInputs? : List (String × Tree) → Option (List (String × LiteralTree))
  | [] => some []
  | (slot, t) :: rest => do
    let t ← t.literal?
    let rest ← literalInputs? rest
    pure ((slot, t) :: rest)

/-- What comes next with its fields taken as literals. -/
def literalNext? : Option Tree → Option (Option LiteralTree)
  | none => some none
  | some t => t.literal?.map some

end

/-! ## From the graph -/

/-- What the slots of both kinds hold, in the order of the slots. -/
def Block.slots (b : Block) : Dict BlockId := b.values.override b.statements

/-- The tree that begins with the block under an id, through at most `depth` levels. -/
def Workspace.rebuild (ws : Workspace) : (depth : Nat) → BlockId → Option LiteralTree
  | 0, _ => none
  | depth + 1, id => do
    let b ← ws.find? id
    let inputs ← b.slots.entries.mapM (underName (ws.rebuild depth))
    let next ← b.next.mapM (ws.rebuild depth)
    pure ⟨b.type, b.id, b.fields.entries, inputs, next⟩

/-- The workspace is the forest and nothing besides. -/
structure Workspace.Lossless (ws : Workspace) (forest : List Tree) : Prop where
  /-- The top blocks are the roots, in their order. -/
  roots : ws.topIds = forest.map Tree.id
  /-- From the top blocks the forest is rebuilt: ids, types, fields, slots and what comes next. -/
  rebuilt : ∃ trees, forest.mapM Tree.literal? = some trees ∧
    ws.topIds.mapM (ws.rebuild ws.size) = some trees
  /-- A block that is no root is referred to by one slot or next link, and a root by none. -/
  linked : ∀ id ∈ ws.ids, ws.referenced.count id = if id ∈ ws.topIds then 0 else 1
  /-- There is one block for each retained block. -/
  counted : ws.size = (forest.flatMap Tree.listing).length
  /-- A slot is a statement slot exactly if it is the body of a loop, else it is a value slot. -/
  slots : ∀ b ∈ ws.blocks, ∃ kind, b.kind = .ok kind ∧ ∀ slot ∈ b.slots.names,
    (slot ∈ b.statements.names ↔ slot = "DO" ∧ ∃ l, kind = .loop l) ∧
    (slot ∈ b.values.names ↔ slot ∉ b.statements.names)
  /-- Each block stands right after the chains of its own inputs. -/
  listed : ws.ids = (forest.flatMap Tree.listing).map Tree.id
  /-- The inputs are taken in the order of their slots. -/
  ordered : ∀ t ∈ forest.flatMap Tree.listing, t.inputs.Pairwise fun p q => p.1 < q.1

/-! ## One block and its tree -/

/-- Fields are literals one by one, and keep their names. -/
theorem mapM_of_literalFields {id : BlockId} :
    ∀ {entries : List (String × Json)} {literals : List (String × FieldValue)},
      literalFields id entries = .ok literals →
        entries.mapM (underName FieldValue.ofJson?) = some literals ∧
          literals.map Prod.fst = entries.map Prod.fst
  | [], literals, h => by
    obtain rfl := Except.ok.inj h
    exact ⟨rfl, rfl⟩
  | (name, value) :: rest, literals, h => by
    rw [literalFields] at h
    split at h
    · rename_i v hv
      obtain ⟨vs, hvs, h⟩ := bind_eq_ok_iff.mp h
      obtain rfl := Except.ok.inj h
      obtain ⟨hrest, hnames⟩ := mapM_of_literalFields hvs
      refine ⟨?_, ?_⟩
      · rw [List.mapM_cons, hrest]
        simp [underName, hv]
      · simp [hnames]
    · cases h

namespace Tree.Loads

variable {t : Tree} {b : Block}

theorem fields_eq (h : t.Loads b) :
    t.fields.entries.mapM (underName FieldValue.ofJson?) = some b.fields.entries := by
  obtain ⟨kind, literals, -, hliterals, rfl⟩ := h
  obtain ⟨hmapM, hnames⟩ := mapM_of_literalFields hliterals
  have hincreasing : literals.Pairwise fun p q => p.1 < q.1 := by
    have := t.fields.increasing
    rw [← List.pairwise_map (f := Prod.fst) (R := (· < ·)), ← hnames, List.pairwise_map] at this
    exact this
  rw [hmapM]
  exact congrArg some (Dict.entries_ofList hincreasing).symm

theorem next_eq (h : t.Loads b) : b.next = t.next.map Tree.id := by
  obtain ⟨kind, literals, -, -, rfl⟩ := h
  rfl

/-- Both kinds of slots together hold the inputs of the tree. -/
theorem slots_eq (h : t.Loads b) (ht : t.Ordered) :
    b.slots.entries = t.inputs.map fun p => (p.1, p.2.id) := by
  obtain ⟨kind, literals, -, -, rfl⟩ := h
  refine Dict.entries_eq_of_find?_eq (Dict.increasing _) ?_ fun name => ?_
  · rw [List.pairwise_map]
    exact ht
  · have hpicked : ∀ pick : String → Bool, (inputIds pick t.inputs).get? name =
        if pick name then (Dict.find? name t.inputs).map Tree.id else none := by
      intro pick
      rw [Dict.get?, entries_inputIds ht, Dict.find?_map Tree.id, Dict.find?_filter]
      split
      · rfl
      · rfl
    rw [Dict.find?_map Tree.id]
    change (Dict.override _ _).get? name = _
    rw [Dict.get?_override]
    simp only [Tree.block, hpicked]
    by_cases hname : name ∈ kind.statementSlots
    · simp [hname]
    · simp [hname]

/-- The slots that a predicate picks are slots of the tree. -/
theorem mem_names_inputIds (ht : t.Ordered) {pick : String → Bool} {slot : String} :
    slot ∈ (inputIds pick t.inputs).names ↔ slot ∈ t.inputs.map Prod.fst ∧ pick slot := by
  rw [Dict.names, entries_inputIds ht, List.map_map]
  simp only [List.mem_map, List.mem_filter, Function.comp_apply]
  constructor
  · rintro ⟨p, ⟨hp, hpick⟩, rfl⟩
    exact ⟨⟨p, hp, rfl⟩, hpick⟩
  · rintro ⟨⟨p, hp, rfl⟩, hpick⟩
    exact ⟨p, ⟨hp, hpick⟩, rfl⟩

/-- Only the body of a loop is a statement slot. -/
theorem slot_kinds (h : t.Loads b) (ht : t.Ordered) :
    ∃ kind, b.kind = .ok kind ∧ ∀ slot ∈ b.slots.names,
      (slot ∈ b.statements.names ↔ slot = "DO" ∧ ∃ l, kind = .loop l) ∧
      (slot ∈ b.values.names ↔ slot ∉ b.statements.names) := by
  obtain ⟨kind, hkind, htree⟩ := h.kind
  refine ⟨kind, hkind, fun slot hslot => ?_⟩
  rw [Dict.names, h.slots_eq ht, List.map_map] at hslot
  have hslot : slot ∈ t.inputs.map Prod.fst := hslot
  obtain ⟨kind', literals, hkind', -, rfl⟩ := h
  cases htree.symm.trans hkind'
  have hbody : kind.statementSlots.contains slot = true ↔ slot = "DO" ∧ ∃ l, kind = .loop l := by
    rcases kind with a | l | e
    · simp [Kind.statementSlots]
    · simp [Kind.statementSlots, Kind.bodySlot]
    · simp [Kind.statementSlots]
  simp only [Tree.block, mem_names_inputIds ht, hslot, true_and, hbody]
  rw [← hbody]
  simp

end Tree.Loads

/-! ## Rebuilding -/

theorem literalInputs?_eq (inputs : List (String × Tree)) :
    literalInputs? inputs = inputs.mapM (underName Tree.literal?) := by
  induction inputs with
  | nil => rfl
  | cons p rest ih =>
    rw [literalInputs?, List.mapM_cons, ih, underName]
    cases p.2.literal? with
    | none => rfl
    | some l => rfl

theorem literalNext?_eq (next : Option Tree) : literalNext? next = next.mapM Tree.literal? := by
  cases next with
  | none => rfl
  | some t => rfl

/-- What both ways give for each element they give for the list. -/
theorem exists_mapM {α β γ : Type} {f : α → Option γ} {g : Nat → β → Option γ} {key : α → β}
    {levels : Nat} :
    ∀ {xs : List α},
      (∀ x ∈ xs, ∃ y, f x = some y ∧ ∀ depth, levels ≤ depth → g depth (key x) = some y) →
        ∃ ys, xs.mapM f = some ys ∧
          ∀ depth, levels ≤ depth → (xs.map key).mapM (g depth) = some ys
  | [], _ => ⟨[], rfl, fun _ _ => rfl⟩
  | x :: rest, h => by
    rw [List.forall_mem_cons] at h
    obtain ⟨y, hf, hg⟩ := h.1
    obtain ⟨ys, hfs, hgs⟩ := exists_mapM h.2
    refine ⟨y :: ys, ?_, fun depth hdepth => ?_⟩
    · rw [List.mapM_cons, hf, hfs]
      rfl
    · rw [List.map_cons, List.mapM_cons, hg depth hdepth, hgs depth hdepth]
      rfl

/-- The tree has literal fields, and it is rebuilt by `levels` levels and by any more. -/
def Workspace.Rebuilds (ws : Workspace) (levels : Nat) (t : Tree) : Prop :=
  ∃ l, t.literal? = some l ∧ ∀ depth, levels ≤ depth → ws.rebuild depth t.id = some l

namespace Workspace

variable {ws : Workspace} {forest : List Tree} {levels : Nat}

theorem rebuilds_inputs {inputs : List (String × Tree)}
    (h : ∀ p ∈ inputs, ws.Rebuilds levels p.2) :
    ∃ ls, literalInputs? inputs = some ls ∧ ∀ depth, levels ≤ depth →
      (inputs.map fun p => (p.1, p.2.id)).mapM (underName (ws.rebuild depth)) = some ls := by
  rw [literalInputs?_eq]
  refine exists_mapM (g := fun depth => underName (ws.rebuild depth)) fun p hp => ?_
  obtain ⟨l, hl, hrebuild⟩ := h p hp
  refine ⟨(p.1, l), ?_, fun depth hdepth => ?_⟩
  · rw [underName, hl]
    rfl
  · rw [underName, hrebuild depth hdepth]
    rfl

theorem rebuilds_next {next : Option Tree} (h : ∀ t ∈ next, ws.Rebuilds levels t) :
    ∃ l, literalNext? next = some l ∧ ∀ depth, levels ≤ depth →
      (next.map Tree.id).mapM (ws.rebuild depth) = some l := by
  rw [literalNext?_eq]
  rcases next with _ | t
  · exact ⟨none, rfl, fun _ _ => rfl⟩
  · obtain ⟨l, hl, hrebuild⟩ := h t rfl
    refine ⟨some l, ?_, fun depth hdepth => ?_⟩
    · simp [Option.mapM, hl]
    · simp [Option.mapM, hrebuild depth hdepth]

theorem Rebuilds.mono {t : Tree} {levels' : Nat} (h : ws.Rebuilds levels t)
    (hle : levels ≤ levels') : ws.Rebuilds levels' t := by
  obtain ⟨l, hl, htree⟩ := h
  exact ⟨l, hl, fun depth hdepth => htree depth (Nat.le_trans hle hdepth)⟩

/-- A tree is rebuilt from its block and from the trees attached to it, one level further in. -/
theorem Lists.rebuilds (h : ws.Lists forest) {t : Tree} (ht : t ∈ forest.flatMap Tree.listing) :
    ws.Rebuilds t.listing.length t := by
  induction t using Tree.induction with
  | h t ih =>
    obtain ⟨b, hb, hload⟩ := h.exists_block ht
    have hordered := h.ordered t ht
    have hchildren : ∀ c ∈ t.children, ws.Rebuilds (t.listing.length - 1) c := by
      intro c hc
      have hlt := Tree.length_listing_lt hc
      exact (ih c hc (mem_of_mem_children ht hc)).mono (by omega)
    obtain ⟨inputs, hinputs, hslots⟩ := rebuilds_inputs fun p hp =>
      hchildren p.2 (List.mem_append_left _ (List.mem_map_of_mem hp))
    obtain ⟨next, hnext, hlink⟩ := rebuilds_next fun c hc =>
      hchildren c (List.mem_append_right _ (Option.mem_toList.mpr hc))
    refine ⟨⟨t.type, t.id, b.fields.entries, inputs, next⟩, ?_, fun depth hdepth => ?_⟩
    · have hfields := hload.fields_eq
      obtain ⟨type, id, fields, ins, nxt⟩ := t
      simp only [Tree.literal?, hfields, hinputs, hnext]
      rfl
    · have hpos : 0 < t.listing.length := List.length_pos_of_mem t.self_mem_listing
      obtain ⟨d, rfl⟩ : ∃ d, depth = d + 1 := ⟨depth - 1, by omega⟩
      rw [rebuild, hb]
      simp only [Option.bind_eq_bind, Option.bind_some, hload.slots_eq hordered, hload.next_eq,
        hslots d (by omega), hlink d (by omega), hload.type_eq, hload.id_eq]
      rfl

theorem Lists.lossless (h : ws.Lists forest) : ws.Lossless forest where
  roots := h.topIds_eq
  rebuilt := by
    have hroots : ∀ t ∈ forest, ws.Rebuilds ws.size t := by
      intro t ht
      have hmem : t ∈ forest.flatMap Tree.listing :=
        List.mem_flatMap.mpr ⟨t, ht, t.self_mem_listing⟩
      refine (h.rebuilds hmem).mono ?_
      rw [h.size_eq, List.length_flatMap]
      exact List.le_sum_of_mem (List.mem_map_of_mem ht)
    obtain ⟨trees, htrees, hrebuild⟩ := exists_mapM (g := ws.rebuild) hroots
    rw [h.topIds_eq]
    exact ⟨trees, htrees, hrebuild ws.size (Nat.le_refl _)⟩
  linked := fun _ => h.count_referenced
  counted := h.size_eq
  slots := by
    intro b hb
    obtain ⟨t, ht, hload⟩ := h.exists_tree hb
    exact hload.slot_kinds (h.ordered t ht)
  listed := h.ids_eq
  ordered := h.ordered

/-- **Nothing is lost by loading**: the workspace is the forest of the text and nothing besides.
The forest is made of the top blocks, in the wanted order, with every connection replaced by its
real block, else its shadow, else nothing. -/
theorem lossless_of_ofText {order : TopOrder} {text : String} (h : ofText order text = .ok ws) :
    ∃ blocks tree, SavedBlock.ofText text = .ok blocks ∧ SavedBlock.Retaining tree ∧
      ws.Lossless ((order.arrange blocks).map tree) := by
  obtain ⟨blocks, hblocks, hlists⟩ := lists_of_ofText h
  exact ⟨blocks, SavedBlock.retained, hblocks, SavedBlock.retaining_retained, hlists.lossless⟩

/-- The top blocks of `twoChainsText`. -/
def twoChainsSaved : List SavedBlock := [
  ⟨"controls_repeat_ext", "loop", 100, 40, {}, [
      ("DO", ⟨some ⟨"wait_time_block", "w", 0, 0, {}, [], none⟩,
        some ⟨"unknown", "w", 0, 0, {}, [], none⟩⟩),
      ("TIMES", ⟨none, some ⟨"math_number", "n", 0, 0, .ofList [("NUM", .integer 3)], [], none⟩⟩)],
    some ⟨some ⟨"controls_repeat", "idle", 0, 0, {}, [], none⟩, none⟩⟩,
  ⟨"acquire_frame_block", "f", 0, 42, {}, [], none⟩]

set_option maxRecDepth 5000 in
theorem savedOfText_twoChainsText : SavedBlock.ofText twoChainsText = .ok twoChainsSaved := by
  rw [SavedBlock.ofText, Json.readFrom,
    Json.Draft.ofText_eq (show twoChainsText = String.ofList _ by exact rfl)]
  rfl

/-- The blocks of `twoChainsText` from top to bottom. -/
def placedChains : Workspace where
  blocks := #[
    { id := "f", type := "acquire_frame_block" },
    { id := "w", type := "wait_time_block" },
    { id := "n", type := "math_number", fields := .ofList [("NUM", .number 3)] },
    { id := "loop", type := "controls_repeat_ext", values := .ofList [("TIMES", "n")],
      statements := .ofList [("DO", "w")], next := some "idle" },
    { id := "idle", type := "controls_repeat" }]

theorem arrange_twoChainsSaved :
    TopOrder.position.arrange twoChainsSaved = twoChainsSaved.reverse := by
  have hseen : Decimal.totalRank (42 + tilt * 0) < Decimal.totalRank (40 + tilt * 100) := by
    decide +kernel
  simp [TopOrder.arrange, twoChainsSaved, List.mergeSort, SavedBlock.notBelow_eq, hseen.not_ge]

theorem ofText_position_twoChainsText : ofText .position twoChainsText = .ok placedChains := by
  rw [ofText, savedOfText_twoChainsText]
  dsimp only
  rw [ofSaved, arrange_twoChainsSaved]
  apply eq_ok_of_toOption
  decide +kernel

/-- In either order nothing is lost.  From top to bottom the picture comes first, and the trees are
rebuilt in this order. -/
theorem lossless_twoChains :
    (ofText .asListed twoChainsText = .ok twoChains ∧
      (∃ blocks tree, SavedBlock.ofText twoChainsText = .ok blocks ∧ SavedBlock.Retaining tree ∧
        twoChains.Lossless ((TopOrder.asListed.arrange blocks).map tree)) ∧
      twoChains.topIds = ["loop", "f"]) ∧
    ofText .position twoChainsText = .ok placedChains ∧
      (∃ blocks tree, SavedBlock.ofText twoChainsText = .ok blocks ∧ SavedBlock.Retaining tree ∧
        placedChains.Lossless ((TopOrder.position.arrange blocks).map tree)) ∧
      placedChains.topIds = ["f", "loop"] ∧
      placedChains.topIds.mapM (placedChains.rebuild 5) = some [
        ⟨"acquire_frame_block", "f", [], [], none⟩,
        ⟨"controls_repeat_ext", "loop", [],
          [("DO", ⟨"wait_time_block", "w", [], [], none⟩),
            ("TIMES", ⟨"math_number", "n", [("NUM", .number 3)], [], none⟩)],
          some ⟨"controls_repeat", "idle", [], [], none⟩⟩] :=
  ⟨⟨ofText_twoChainsText, lossless_of_ofText ofText_twoChainsText, by decide +kernel⟩,
    ofText_position_twoChainsText, lossless_of_ofText ofText_position_twoChainsText,
    by decide +kernel, rfl⟩

end Workspace

end BlockSteps

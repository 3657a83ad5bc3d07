import Mathlib
import BlockSteps.Proofs.Json.Canonical
import BlockSteps.Proofs.Workspace.Listing

/-!
# Retained trees

A connection keeps its real block if it has one, else its shadow (`Connection.kept`), and the
retained part of a block is the block with everything that its connections keep
(`SavedBlock.retaining_retained`).

**Slots come in order.**  The inputs of a saved block are read as a dictionary, so no two of them
have one slot and the slots increase.  Dropping the empty ones leaves them in order, and so every
tree of a forest that was read from a text has its inputs in strict order (`ordered_of_ofText`).

**What else is known of a block that is read** is known of all that its connections keep, as blocks
are read from the inside out: it is enough to look at one of them (`SavedBlock.gives_of_readOver`).
-/

namespace BlockSteps

/-- What a connection keeps: the real block if there is one, else the shadow, else nothing. -/
def Connection.kept {β : Type} (c : Connection β) : Option β := c.block.or c.shadow

theorem retainedInputs_eq (inputs : List (String × Connection SavedBlock)) :
    retainedInputs inputs =
      inputs.filterMap fun p => p.2.kept.map fun b => (p.1, b.retained) := by
  induction inputs with
  | nil => rfl
  | cons p rest ih =>
    obtain ⟨slot, block, shadow⟩ := p
    rcases block with _ | b
    · rcases shadow with _ | b
      · simp [retainedInputs, Connection.kept, ih]
      · simp [retainedInputs, Connection.kept, ih]
    · simp [retainedInputs, Connection.kept, ih]

theorem retainedNext_eq (next : Option (Connection SavedBlock)) :
    retainedNext next = (next.bind Connection.kept).map SavedBlock.retained := by
  rcases next with _ | ⟨block, shadow⟩
  · rfl
  · rcases block with _ | b
    · rcases shadow with _ | b
      · rfl
      · rfl
    · rfl

/-- The tree of a block is the block with the trees of what its connections keep; an input that
keeps nothing is left out.  The trees of the attached blocks are smaller, so this determines the
tree of every block. -/
def SavedBlock.Retaining (tree : SavedBlock → Tree) : Prop :=
  ∀ b : SavedBlock, tree b =
    { type := b.type
      id := b.id
      fields := b.fields
      inputs := b.inputs.filterMap fun p => p.2.kept.map fun c => (p.1, tree c)
      next := (b.next.bind Connection.kept).map tree }

/-- The retained part of a block is its tree. -/
theorem SavedBlock.retaining_retained : SavedBlock.Retaining SavedBlock.retained := by
  rintro ⟨type, id, x, y, fields, inputs, next⟩
  rw [SavedBlock.retained, retainedInputs_eq, retainedNext_eq]

/-! ## Slots in order -/

/-- The slots of the inputs increase strictly. -/
def Tree.Ordered (t : Tree) : Prop := t.inputs.Pairwise fun p q => p.1 < q.1

/-- All trees of the retained part have their inputs in order. -/
def SavedBlock.Orderly (b : SavedBlock) : Prop := ∀ t ∈ b.retained.listing, t.Ordered

/-- What is known of a block when it is read and what its connections keep has a property.  Reading
a block builds this up member by member. -/
structure SavedBlock.ReadOver (P : SavedBlock → Prop) (b : SavedBlock) : Prop where
  /-- The slots increase. -/
  slots : b.inputs.Pairwise fun p q => p.1 < q.1
  /-- The fields hold values that a reader can give. -/
  fields : ∀ p ∈ b.fields.entries, p.2.Canonical
  /-- What the inputs keep has the property. -/
  inputs : ∀ p ∈ b.inputs, ∀ c ∈ p.2.kept, P c
  /-- What comes next has the property. -/
  next : ∀ n ∈ b.next, ∀ c ∈ n.kept, P c

theorem SavedBlock.ReadOver.orderly {b : SavedBlock} (h : b.ReadOver SavedBlock.Orderly) :
    b.Orderly := by
  intro t ht
  have hb := SavedBlock.retaining_retained b
  rcases List.mem_cons.mp (b.retained.listing_perm.mem_iff.mp ht) with rfl | ht
  · unfold Tree.Ordered
    rw [hb, List.pairwise_filterMap]
    refine h.slots.imp ?_
    intro p q hpq r hr s hs
    obtain ⟨-, -, rfl⟩ := Option.map_eq_some_iff.mp hr
    obtain ⟨-, -, rfl⟩ := Option.map_eq_some_iff.mp hs
    exact hpq
  · obtain ⟨c, hc, ht⟩ := List.mem_flatMap.mp ht
    rw [hb] at hc
    rcases List.mem_append.mp hc with hc | hc
    · obtain ⟨r, hr, rfl⟩ := List.mem_map.mp hc
      obtain ⟨p, hp, hr⟩ := List.mem_filterMap.mp hr
      obtain ⟨d, hd, rfl⟩ := Option.map_eq_some_iff.mp hr
      exact h.inputs p hp d hd t ht
    · obtain ⟨d, hd, rfl⟩ := Option.map_eq_some_iff.mp (Option.mem_toList.mp hc)
      obtain ⟨n, hn, hd⟩ := Option.bind_eq_some_iff.mp hd
      exact h.next n hn d hd t ht

/-! ## What is known of a block that is read -/

section Reading

variable {P : SavedBlock → Prop} {read : Json.Reader SavedBlock}

theorem Connection.gives_kept (h : Json.Gives read P) :
    Json.Gives (Connection.record read).read fun c => ∀ b ∈ c.kept, P b := by
  have hboth : Json.Gives (Connection.record read).read fun c =>
      (∀ b ∈ c.block, P b) ∧ ∀ b ∈ c.shadow, P b := by
    refine Json.gives_record ⟨nofun, nofun⟩ ?_
    have hread := Json.gives_readOptional h
    simp only [Connection.record, List.forall_mem_cons]
    refine ⟨?_, ?_, nofun⟩
    · exact Json.Field.keeps_of hread fun v r hv hr => ⟨hv, hr.2⟩
    · exact Json.Field.keeps_of hread fun v r hv hr => ⟨hr.1, hv⟩
  intro d c hc b hb
  obtain ⟨hblock, hshadow⟩ := hboth d c hc
  rcases Option.or_eq_some_iff.mp hb with hb | ⟨-, hb⟩
  · exact hblock b hb
  · exact hshadow b hb

theorem SavedBlock.gives_readOver (h : Json.Gives read P) :
    Json.Gives (SavedBlock.record read).read (SavedBlock.ReadOver P) := by
  have hconnection := Connection.gives_kept h
  have hother : ∀ {β : Type} (reader : Json.Reader β), Json.Gives reader fun _ => True :=
    fun _ _ _ _ => trivial
  refine Json.gives_record ⟨.nil, nofun, nofun, nofun⟩ ?_
  simp only [SavedBlock.record, List.forall_mem_cons]
  refine ⟨?type, ?id, ?x, ?y, ?fields, ?inputs, ?next, nofun⟩
  case type | id | x | y =>
    exact Json.Field.keeps_of (hother _) fun v r _ hr => ⟨hr.slots, hr.fields, hr.inputs, hr.next⟩
  case fields =>
    exact Json.Field.keeps_of (Json.gives_readDict (Json.gives_json none)) fun v r hv hr =>
      ⟨hr.slots, hv, hr.inputs, hr.next⟩
  case inputs =>
    exact Json.Field.keeps_of (Json.gives_readDict hconnection) fun v r hv hr =>
      ⟨v.increasing, hr.fields, hv, hr.next⟩
  case next =>
    exact Json.Field.keeps_of (Json.gives_readOptional hconnection) fun v r hv hr =>
      ⟨hr.slots, hr.fields, hr.inputs, hv⟩

end Reading

/-- What a block has as soon as what it keeps has it, every block has that is read. -/
theorem SavedBlock.gives_of_readOver {P : SavedBlock → Prop} (h : ∀ b, ReadOver P b → P b) :
    Json.Gives SavedBlock.read P := by
  have hwithin : ∀ height, Json.Gives (SavedBlock.readWithin height) P := by
    intro height
    induction height with
    | zero => exact fun d b hb => nomatch hb
    | succ height ih => exact fun d b hb => h b (gives_readOver ih d b hb)
  exact fun d => hwithin d.height d

/-- What holds of every block that is read holds of the top blocks of a text. -/
theorem SavedBlock.forall_of_ofText {P : SavedBlock → Prop} (hread : Json.Gives SavedBlock.read P)
    {text : String} {blocks : List SavedBlock} (h : SavedBlock.ofText text = .ok blocks) :
    ∀ b ∈ blocks, P b := by
  have hlist : Json.Gives SavedBlock.listRecord.read fun bs => ∀ b ∈ bs, P b := by
    refine Json.gives_record nofun ?_
    simp only [SavedBlock.listRecord, List.forall_mem_cons]
    exact ⟨Json.Field.keeps_of (Json.gives_readList hread) fun v _ hv _ => hv, nofun⟩
  have hworkspace : Json.Gives SavedBlock.workspaceRecord.read fun bs => ∀ b ∈ bs, P b := by
    refine Json.gives_record nofun ?_
    simp only [SavedBlock.workspaceRecord, List.forall_mem_cons]
    refine ⟨Json.Field.keeps_of (Json.gives_readOptional hlist) fun v _ hv _ => ?_, nofun⟩
    rcases v with _ | bs
    · exact nofun
    · exact hv bs rfl
  exact Json.of_readFrom hworkspace h

/-- The blocks of a text are read with their inputs in order. -/
theorem SavedBlock.orderly_of_ofText {text : String} {blocks : List SavedBlock}
    (h : SavedBlock.ofText text = .ok blocks) : ∀ b ∈ blocks, b.Orderly :=
  forall_of_ofText (gives_of_readOver fun _ => ReadOver.orderly) h

theorem TopOrder.arrange_perm (order : TopOrder) (blocks : List SavedBlock) :
    (order.arrange blocks).Perm blocks := by
  cases order with
  | position => exact List.mergeSort_perm blocks _
  | asListed => exact .refl blocks

theorem SavedBlock.notBelow_eq (a b : SavedBlock) : a.notBelow b =
    decide (Decimal.totalRank (a.y + tilt * a.x) ≤ Decimal.totalRank (b.y + tilt * b.x)) := rfl

theorem TopOrder.arrange_singleton (order : TopOrder) (b : SavedBlock) :
    order.arrange [b] = [b] := by
  cases order with
  | position => exact List.mergeSort_singleton b
  | asListed => rfl

/-- Every tree of the forest that a text describes has its inputs in order. -/
theorem ordered_of_ofText {text : String} {blocks : List SavedBlock} (order : TopOrder)
    (h : SavedBlock.ofText text = .ok blocks) :
    ∀ t ∈ ((order.arrange blocks).map SavedBlock.retained).flatMap Tree.listing, t.Ordered := by
  intro t ht
  obtain ⟨u, hu, ht⟩ := List.mem_flatMap.mp ht
  obtain ⟨b, hb, rfl⟩ := List.mem_map.mp hu
  have hb := (order.arrange_perm blocks).mem_iff.mp hb
  exact SavedBlock.orderly_of_ofText h b hb t ht

end BlockSteps

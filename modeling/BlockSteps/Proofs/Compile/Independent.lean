import Mathlib
import BlockSteps.Proofs.Compile.Parts
import BlockSteps.Proofs.Compile.Rearranged

/-!
# Independent programs, one behind the other

Two lists of blocks are **independent** if no block of either refers to an id of the other.  Put one
behind the other they make a workspace whose program is the two programs, one behind the other.

* Each list is a part of the whole (`Joins.isPart_left`, `Joins.isPart_right`), so each chain
  compiles as it does alone, errors included; and the heads of the whole are those of the first
  followed by those of the second (`Joins.topIds_eq`).
* What the second program sees of the first is a number, the steps that are already made.
  `chainsOutcome_later` says that a greater number changes nothing, or stops the program at the
  limit; `chainsOutcome_of_fits` says that it changes nothing if the limit allows for all steps.

**Main statement.**  `compile_append`.  The hypothesis on circles is about each list alone; what
circles a whole has, its independent parts have.
-/

namespace BlockSteps.Workspace

/-! ## Two lists as one workspace -/

/-- No block of either list refers to an id of the other. -/
def Independent (as bs : List Block) : Prop :=
  ∀ a ∈ as, ∀ b ∈ bs, b.id ∉ a.references ∧ a.id ∉ b.references

instance (as bs : List Block) : Decidable (Independent as bs) :=
  inferInstanceAs (Decidable (∀ a ∈ as, ∀ b ∈ bs, _ ∧ _))

theorem Independent.symm {as bs : List Block} (h : Independent as bs) : Independent bs as :=
  fun b hb a ha => (h a ha b hb).symm

/-- Nothing that the one refers to is a block of the other. -/
theorem Independent.disjoint {left right : Workspace}
    (h : Independent left.blocks.toList right.blocks.toList) :
    left.referenced.Disjoint right.ids := by
  intro id hid hmem
  obtain ⟨b, hb, hid⟩ := List.mem_flatMap.mp hid
  obtain ⟨c, hc, rfl⟩ := List.mem_map.mp hmem
  exact (h b hb c hc).1 hid

/-- The blocks of a workspace are those of two others, which are independent. -/
structure Joins (left right whole : Workspace) : Prop where
  /-- The blocks of the one stand before those of the other. -/
  blocks_eq : whole.blocks = left.blocks ++ right.blocks
  /-- No block of the one refers to a block of the other. -/
  independent : Independent left.blocks.toList right.blocks.toList

/-- A workspace that comes from two lists joins the workspaces of the lists. -/
theorem exists_joins_of_ofBlocks {as bs : List Block} {whole : Workspace}
    (hwhole : ofBlocks (as ++ bs) = .ok whole) (hindependent : Independent as bs) :
    ∃ left right, ofBlocks as = .ok left ∧ ofBlocks bs = .ok right ∧ Joins left right whole := by
  obtain ⟨hnodup, rfl⟩ := ofBlocks_eq_ok_iff.mp hwhole
  have hparts := hnodup
  rw [List.map_append, List.nodup_append] at hparts
  refine ⟨⟨as.toArray, hparts.1⟩, ⟨bs.toArray, hparts.2.1⟩, ?_, ?_, ?_, hindependent⟩
  · exact ofBlocks_eq_ok_iff.mpr ⟨hparts.1, rfl⟩
  · exact ofBlocks_eq_ok_iff.mpr ⟨hparts.2.1, rfl⟩
  · exact (List.append_toArray as bs).symm

variable {left right whole : Workspace} {opts : Options}

namespace Joins

variable (h : Joins left right whole)
include h

theorem ids_eq : whole.ids = left.ids ++ right.ids := by
  rw [ids, h.blocks_eq, Array.toList_append, List.map_append]
  rfl

theorem referenced_eq : whole.referenced = left.referenced ++ right.referenced := by
  rw [referenced, h.blocks_eq, Array.toList_append, List.flatMap_append]
  rfl

theorem size_eq : whole.size = left.size + right.size := by
  rw [size, h.blocks_eq, Array.size_append]
  rfl

theorem find?_eq (id : BlockId) : whole.find? id = (left.find? id).or (right.find? id) := by
  rw [find?, h.blocks_eq, Array.find?_append]
  rfl

/-- Under an id that is not among those on the right, what is found is what is found on the left. -/
theorem find?_left {id : BlockId} (hid : id ∉ right.ids) : whole.find? id = left.find? id := by
  rw [h.find?_eq, find?_eq_none_iff_not_mem_ids.mpr hid, Option.or_none]

theorem find?_right {id : BlockId} (hid : id ∉ left.ids) : whole.find? id = right.find? id := by
  rw [h.find?_eq, find?_eq_none_iff_not_mem_ids.mpr hid, Option.none_or]

theorem not_mem_right_of_mem_left {id : BlockId} (hid : id ∈ left.ids) : id ∉ right.ids := by
  have hdistinct := whole.nodup_ids
  rw [h.ids_eq] at hdistinct
  exact List.disjoint_of_nodup_append hdistinct hid

theorem isPart_left : left.IsPart whole where
  find?_eq b hb id hid := h.find?_left (h.independent.disjoint (mem_referenced hb hid))
  size_le := h.size_eq ▸ Nat.le_add_right _ _
  length_referenced_le := by
    rw [h.referenced_eq, List.length_append]
    exact Nat.le_add_right _ _

theorem isPart_right : right.IsPart whole where
  find?_eq b hb id hid := h.find?_right (h.independent.symm.disjoint (mem_referenced hb hid))
  size_le := h.size_eq ▸ Nat.le_add_left _ _
  length_referenced_le := by
    rw [h.referenced_eq, List.length_append]
    exact Nat.le_add_left _ _

/-- The heads of the whole are the heads of the two, in order: a block to which nothing refers on
its own side is referred to from nowhere. -/
theorem topIds_eq : whole.topIds = left.topIds ++ right.topIds := by
  unfold topIds
  rw [h.ids_eq, h.referenced_eq, List.filter_append]
  congr 1
  · apply List.filter_congr
    intro id hid
    have hfree : id ∉ right.referenced := fun hmem => h.independent.symm.disjoint hmem hid
    simp [hfree]
  · apply List.filter_congr
    intro id hid
    have hfree : id ∉ left.referenced := fun hmem => h.independent.disjoint hmem hid
    simp [hfree]

/-- The chains of the left compile in the whole as they do alone. -/
theorem sameEnd_left (hacyclic : left.Acyclic) (done : Nat) :
    SameEnd (left.chainsOutcome opts done left.topIds)
      (whole.chainsOutcome opts done left.topIds) := by
  apply h.isPart_left.sameEnd_chainsOutcome hacyclic
  intro id hid
  exact h.find?_left (h.not_mem_right_of_mem_left (mem_topIds.mp hid).1)

theorem sameEnd_right (hacyclic : right.Acyclic) (done : Nat) :
    SameEnd (right.chainsOutcome opts done right.topIds)
      (whole.chainsOutcome opts done right.topIds) := by
  apply h.isPart_right.sameEnd_chainsOutcome hacyclic
  intro id hid
  apply h.find?_right
  intro hleft
  exact h.not_mem_right_of_mem_left hleft (mem_topIds.mp hid).1

end Joins

/-! ## Chains behind other chains -/

variable {ws : Workspace}

/-- The chains of two lists of heads, one list behind the other. -/
theorem chainsOutcome_append (done : Nat) (heads others : List BlockId) :
    ws.chainsOutcome opts done (heads ++ others) =
      (ws.chainsOutcome opts done heads >>= fun steps =>
        ws.chainsOutcome opts (done + steps.length) others >>= fun more =>
          pure (steps ++ more)) := by
  induction heads generalizing done with
  | nil =>
    rw [List.nil_append, chainsOutcome, ok_bind]
    exact (bind_pure _).symm
  | cons id rest ih =>
    rw [List.cons_append, chainsOutcome, chainsOutcome]
    simp only [ih, bind_assoc, pure_bind, List.length_append, Nat.add_assoc, List.append_assoc]

/-- More steps before the first chain change nothing, or one of the chains exceeds the limit. -/
theorem chainsOutcome_later {done later : Nat} (hle : done ≤ later) (heads : List BlockId) :
    ws.chainsOutcome opts later heads = ws.chainsOutcome opts done heads ∨
      ∃ id ∈ heads, ws.chainsOutcome opts later heads =
        .error (.rejected (.stepLimitExceeded opts.maxSteps id)) := by
  induction heads generalizing done later with
  | nil => exact .inl rfl
  | cons id rest ih =>
    rw [chainsOutcome, chainsOutcome]
    cases checked (ws.resolve "workspace" id) with
    | error f => exact .inl rfl
    | ok head =>
      rw [ok_bind, ok_bind]
      cases ws.chainOutcome opts ws.nestBound head with
      | error f => exact .inl rfl
      | ok steps =>
        rw [ok_bind, ok_bind]
        by_cases hfits : later + steps.length ≤ opts.maxSteps
        · have hlater : checkLimit opts.maxSteps (later + steps.length) id = .ok () :=
            checkLimit_eq_ok_iff.mpr hfits
          have hdone : checkLimit opts.maxSteps (done + steps.length) id = .ok () :=
            checkLimit_eq_ok_iff.mpr (by omega)
          rw [hlater, hdone, checked_ok, ok_bind, ok_bind]
          obtain hsame | ⟨other, hother, hstops⟩ :=
            ih (show done + steps.length ≤ later + steps.length by omega)
          · exact .inl (by rw [hsame])
          · exact .inr ⟨other, List.mem_cons_of_mem _ hother, by rw [hstops, error_bind]⟩
        · have hlater : checkLimit opts.maxSteps (later + steps.length) id =
              .error (.stepLimitExceeded opts.maxSteps id) := if_pos (Nat.not_le.mp hfits)
          exact .inr ⟨id, List.mem_cons_self, by rw [hlater, checked_error, error_bind]⟩

/-- Chains give their steps behind any others, if the limit allows for all of them. -/
theorem chainsOutcome_of_fits {done later : Nat} (hdone : done ≤ opts.maxSteps)
    {heads : List BlockId} {steps : List Step} (h : ws.chainsOutcome opts done heads = .ok steps)
    (hfits : later + steps.length ≤ opts.maxSteps) :
    ws.chainsOutcome opts later heads = .ok steps := by
  obtain ⟨hcontributes, -, rfl⟩ := (chainsOutcome_eq_ok_iff hdone).mp h
  have hlater : later ≤ opts.maxSteps := (Nat.le_add_right _ _).trans hfits
  exact (chainsOutcome_eq_ok_iff hlater).mpr ⟨hcontributes, hfits, rfl⟩

/-! ## Programs -/

/-- A compilation fails exactly as its chains do. -/
theorem compile_eq_error_iff {f : Failure} :
    ws.compile opts = .error f ↔ ws.chainsOutcome opts 0 ws.topIds = .error f := by
  rw [compile, compileFrom_eq]
  cases ws.chainsOutcome opts 0 ws.topIds with
  | ok steps =>
    constructor
    · intro h
      cases h
    · intro h
      cases h
  | error g =>
    constructor
    · intro h
      exact congrArg _ (Except.error.inj h)
    · intro h
      exact congrArg _ (Except.error.inj h)

/-- The steps of one document followed by those of another are the assembled steps of both. -/
theorem assemble_append (policy : IdPolicy) (steps more : List Step) :
    Document.assemble policy (steps ++ more) =
      ⟨(Document.assemble policy steps).steps ++ (Document.assemble policy more).steps⟩ := by
  simp [Document.assemble]

namespace Joins

variable (h : Joins left right whole) (hleft : left.Acyclic) (hright : right.Acyclic)
include h hleft

/-- The compilation of the whole begins with that of the left. -/
theorem chainsOutcome_eq : whole.chainsOutcome opts 0 whole.topIds =
    (left.chainsOutcome opts 0 left.topIds >>= fun steps =>
      whole.chainsOutcome opts steps.length right.topIds >>= fun more =>
        pure (steps ++ more)) := by
  rw [h.topIds_eq, chainsOutcome_append, (h.sameEnd_left hleft 0).eq]
  simp only [Nat.zero_add]

theorem compile_of_left_error {f : Failure} (hfails : left.compile opts = .error f) :
    whole.compile opts = .error f := by
  rw [compile_eq_error_iff] at hfails ⊢
  rw [h.chainsOutcome_eq hleft, hfails, error_bind]

include hright

/-- Behind the document of the left the right either has the outcome that it has alone, or it stops
at the limit. -/
theorem compile_of_left_ok {doc : Document} (hdoc : left.compile opts = .ok doc) :
    whole.compile opts = (right.compile opts).map (fun more => ⟨doc.steps ++ more.steps⟩) ∨
      ∃ id ∈ right.topIds,
        whole.compile opts = .error (.rejected (.stepLimitExceeded opts.maxSteps id)) := by
  obtain ⟨steps, hsteps, rfl⟩ := compileFrom_eq_ok hdoc
  have hbegin : whole.chainsOutcome opts 0 whole.topIds = _ := h.chainsOutcome_eq hleft
  rw [hsteps, ok_bind] at hbegin
  have hlater : whole.chainsOutcome opts steps.length right.topIds =
      whole.chainsOutcome opts 0 right.topIds ∨ _ :=
    chainsOutcome_later (Nat.zero_le _) right.topIds
  obtain hsame | ⟨id, hid, hstops⟩ := hlater
  · refine .inl ?_
    rw [hsame, (h.sameEnd_right hright 0).eq] at hbegin
    rw [compile, compileFrom_eq, hbegin, compile, compileFrom_eq]
    cases right.chainsOutcome opts 0 right.topIds with
    | error f => rfl
    | ok more => exact congrArg Except.ok (assemble_append opts.ids steps more)
  · refine .inr ⟨id, hid, ?_⟩
    rw [hstops, error_bind] at hbegin
    exact compile_eq_error_iff.mpr hbegin

/-- Two documents that the limit allows for together are the document of the whole. -/
theorem compile_of_fits {doc more : Document} (hdoc : left.compile opts = .ok doc)
    (hmore : right.compile opts = .ok more) (hfits : doc.length + more.length ≤ opts.maxSteps) :
    whole.compile opts = .ok ⟨doc.steps ++ more.steps⟩ := by
  obtain ⟨steps, hsteps, rfl⟩ := compileFrom_eq_ok hdoc
  obtain ⟨others, hothers, rfl⟩ := compileFrom_eq_ok hmore
  rw [Document.length_assemble, Document.length_assemble] at hfits
  have hbehind : whole.chainsOutcome opts steps.length right.topIds = .ok others := by
    rw [(h.sameEnd_right hright _).eq]
    exact chainsOutcome_of_fits (Nat.zero_le _) hothers hfits
  rw [compile, compileFrom_eq, h.chainsOutcome_eq hleft, hsteps, ok_bind, hbehind, ok_bind]
  exact congrArg Except.ok (assemble_append opts.ids steps others)

end Joins

/-- **Independent programs compose.**  Blocks of two independent lists without circles, all under
different ids, make a workspace in which the second program stands behind the first.  If both
compile alone, the whole compiles to the steps of both exactly if the limit allows for them, and is
refused because of the limit at a head of the second otherwise.  If the first fails, the whole fails
with the same error.  If only the second fails, the whole fails with that error or because of the
limit.  None of these failures is that of a compilation without an end. -/
theorem compile_append {as bs : List Block} {whole : Workspace}
    (hwhole : ofBlocks (as ++ bs) = .ok whole) (hindependent : Independent as bs) :
    ∃ left right, ofBlocks as = .ok left ∧ ofBlocks bs = .ok right ∧
      (left.Acyclic → right.Acyclic → ∀ opts : Options,
        (∀ a b, left.compile opts = .ok a → right.compile opts = .ok b →
          (a.length + b.length ≤ opts.maxSteps →
            whole.compile opts = .ok ⟨a.steps ++ b.steps⟩) ∧
          (opts.maxSteps < a.length + b.length → ∃ id ∈ right.topIds,
            whole.compile opts = .error (.rejected (.stepLimitExceeded opts.maxSteps id)))) ∧
        (∀ f, left.compile opts = .error f → f ≠ .endless ∧ whole.compile opts = .error f) ∧
        ∀ a f, left.compile opts = .ok a → right.compile opts = .error f → f ≠ .endless ∧
          (whole.compile opts = .error f ∨ ∃ id ∈ right.topIds,
            whole.compile opts = .error (.rejected (.stepLimitExceeded opts.maxSteps id)))) := by
  obtain ⟨left, right, hleft, hright, hjoins⟩ := exists_joins_of_ofBlocks hwhole hindependent
  refine ⟨left, right, hleft, hright, ?_⟩
  intro hleft hright opts
  refine ⟨?_, ?_, ?_⟩
  · intro a b ha hb
    refine ⟨hjoins.compile_of_fits hleft hright ha hb, ?_⟩
    intro hlong
    obtain hsame | hstops := hjoins.compile_of_left_ok hleft hright ha
    · rw [hb] at hsame
      have hshort : (Document.mk (a.steps ++ b.steps)).length ≤ opts.maxSteps :=
        length_le_of_compile hsame
      rw [Document.length, List.length_append] at hshort
      exact absurd hshort (Nat.not_le.mpr hlong)
    · exact hstops
  · intro f hf
    refine ⟨?_, hjoins.compile_of_left_error hleft hf⟩
    rintro rfl
    exact compileFrom_ne_endless hleft left.topIds opts hf
  · intro a f ha hf
    refine ⟨?_, ?_⟩
    · rintro rfl
      exact compileFrom_ne_endless hright right.topIds opts hf
    · obtain hsame | hstops := hjoins.compile_of_left_ok hleft hright ha
      · rw [hf] at hsame
        exact .inl hsame
      · exact .inr hstops

/-- A program of two steps that shares no block with `loopInLoop`. -/
def twoFrames : List Block := [
  { id := "again", type := "controls_repeat", fields := .ofList [("TIMES", .number 2)],
    statements := .ofList [("DO", "snap")] },
  { id := "snap", type := "acquire_frame_block" }]

/-- The document of `twoFrames` with numbered copies. -/
def twoFramesDocument : Document :=
  ⟨[[0], [1]].map fun path =>
    { id := "snap#" ++ Step.dotted path, stepName := "Acquire Frame", mainFunc := "acquire_frame",
      mainParams := .ofList [("channel", .text "Mono")], iteration := path }⟩

/-- The four steps of `loopInLoop` and the two of `twoFrames` keep a limit of six and not one of
five, under which each program still compiles alone. -/
theorem compile_append_twoFrames :
    ∃ whole, ofBlocks (loopInLoop.blocks.toList ++ twoFrames) = .ok whole ∧
      Independent loopInLoop.blocks.toList twoFrames ∧
      (Workspace.mk twoFrames.toArray).Acyclic ∧
      whole.compile { ids := .indexed, maxSteps := 6 } =
        .ok ⟨loopInLoopDocument.steps ++ twoFramesDocument.steps⟩ ∧
      ∃ id ∈ (Workspace.mk twoFrames.toArray).topIds,
        whole.compile { ids := .indexed, maxSteps := 5 } =
          .error (.rejected (.stepLimitExceeded 5 id)) := by
  have hdistinct : ((loopInLoop.blocks.toList ++ twoFrames).map Block.id).Nodup := by
    decide +kernel
  have hwhole : ofBlocks (loopInLoop.blocks.toList ++ twoFrames) =
      .ok ⟨(loopInLoop.blocks.toList ++ twoFrames).toArray, hdistinct⟩ :=
    ofBlocks_eq_ok_iff.mpr ⟨hdistinct, rfl⟩
  have hindependent : Independent loopInLoop.blocks.toList twoFrames := by decide +kernel
  have hframes : (Workspace.mk twoFrames.toArray).Acyclic :=
    acyclic_of_rank (fun b => if b.id = "again" then 1 else 0) (by decide +kernel)
  obtain ⟨left, right, hleft, hright, hcompose⟩ := compile_append hwhole hindependent
  obtain rfl : left = loopInLoop := Except.ok.inj (hleft.symm.trans loopInLoop.ofBlocks_blocks)
  obtain rfl : right = .mk twoFrames.toArray :=
    Except.ok.inj (hright.symm.trans (ofBlocks_blocks (.mk twoFrames.toArray)))
  have hsix := (hcompose acyclic_loopInLoop hframes { ids := .indexed, maxSteps := 6 }).1
    loopInLoopDocument twoFramesDocument (by decide +kernel) (by decide +kernel)
  have hfive := (hcompose acyclic_loopInLoop hframes { ids := .indexed, maxSteps := 5 }).1
    loopInLoopDocument twoFramesDocument (by decide +kernel) (by decide +kernel)
  exact ⟨_, hwhole, hindependent, hframes, hsix.1 (by decide), hfive.2 (by decide)⟩

end BlockSteps.Workspace

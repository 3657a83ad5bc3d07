import Mathlib
import BlockSteps.Proofs.Compile.Outcome
import BlockSteps.Proofs.Workspace.Insertion

/-!
# Blocks and heads in another order

The order in which blocks were inserted has two effects: it is the order in which the heads of the
chains are taken, and nothing else.  Each chain is compiled from what is found under ids, and with
bounds that are set by how many blocks and references there are.

* `SameGraph` is what two workspaces share that hold the same blocks in different orders
  (`sameGraph_of_perm`).  Every function of the compiler gives the same on both, errors included;
  the section has one lemma for each, up to `SameGraph.chainOutcome_eq`.
* `segment` is what one head contributes to a program.  The limit is compared after every chain, but
  the sums only grow, so it is the total that counts: `chainsOutcome_eq_ok_iff` says what a program
  needs, and none of its parts asks for the order of the heads (`chainsOutcome_eq_ok_of_perm`).
-/

namespace BlockSteps.Workspace

/-! ## The same graph -/

/-- Two workspaces with the same block under each id, and with as many blocks and references. -/
structure SameGraph (ws ws' : Workspace) : Prop where
  /-- Under each id the same block is found. -/
  find?_eq : ∀ id, ws.find? id = ws'.find? id
  /-- There are as many blocks. -/
  size_eq : ws.size = ws'.size
  /-- There are as many references. -/
  length_referenced_eq : ws.referenced.length = ws'.referenced.length

variable {ws ws' : Workspace}

theorem sameGraph_of_perm (h : ws.blocks.toList.Perm ws'.blocks.toList) : ws.SameGraph ws' where
  find?_eq id := by
    have hids : ws.ids.Perm ws'.ids := h.map Block.id
    cases hfound : ws.find? id with
    | none =>
      rw [find?_eq_none_iff_not_mem_ids, hids.mem_iff] at hfound
      exact (find?_eq_none_iff_not_mem_ids.mpr hfound).symm
    | some b =>
      have hb : b ∈ ws'.blocks := by
        rw [← Array.mem_toList_iff, ← h.mem_iff, Array.mem_toList_iff]
        exact mem_of_find? hfound
      rw [← id_of_find? hfound]
      exact (find?_of_mem hb).symm
  size_eq := by simpa [size] using h.length_eq
  length_referenced_eq := (h.flatMap_right Block.references).length_eq

namespace SameGraph

variable (h : ws.SameGraph ws')
include h

theorem resolve_eq : ws.resolve = ws'.resolve := by
  funext origin target
  rw [resolve, resolve, h.find?_eq]

/-! ### Values -/

theorem inputBy_eq : ws.inputBy = ws'.inputBy := by
  funext value b slot
  unfold inputBy
  rw [h.resolve_eq]

theorem numberInputBy_eq : ws.numberInputBy = ws'.numberInputBy := by
  funext value b slot
  unfold numberInputBy
  rw [h.inputBy_eq]

theorem valueWithin_eq (bound : Nat) : ws.valueWithin bound = ws'.valueWithin bound := by
  induction bound with
  | zero => rfl
  | succ bound ih =>
    funext b
    rw [valueWithin, valueWithin, ih, h.numberInputBy_eq]

theorem value_eq : ws.value = ws'.value := by
  funext b
  rw [value, value, h.size_eq, h.valueWithin_eq]

theorem numberInput_eq : ws.numberInput = ws'.numberInput := by
  funext b slot
  rw [numberInput, numberInput, h.value_eq, h.numberInputBy_eq]

theorem numberParam_eq : ws.numberParam = ws'.numberParam := by
  funext b slot default
  unfold numberParam
  rw [h.numberInput_eq]

theorem textParam_eq : ws.textParam = ws'.textParam := by
  funext b slot default
  unfold textParam input
  rw [h.value_eq, h.inputBy_eq]

/-! ### Steps and loops -/

theorem step_eq (hooks : HookTable) (b : Block) (a : Action) :
    a.step ws hooks b = a.step ws' hooks b := by
  have hparams : a.params ws b = a.params ws' b := by
    unfold Action.params
    rw [h.numberParam_eq, h.textParam_eq]
  rw [Action.step, Action.step, hparams]

theorem loopCount_eq : ws.loopCount = ws'.loopCount := by
  funext b l
  unfold loopCount
  rw [h.numberInput_eq]

theorem resolveAll_eq (origin : BlockId) (ids : List BlockId) :
    ws.resolveAll origin ids = ws'.resolveAll origin ids := by
  induction ids with
  | nil => rfl
  | cons id rest ih => rw [resolveAll, resolveAll, h.resolve_eq, ih]

theorem validateWithin_eq (bound : Nat) : ws.validateWithin bound = ws'.validateWithin bound := by
  induction bound with
  | zero => rfl
  | succ bound ih =>
    funext pending seen
    cases pending with
    | nil => rfl
    | cons b pending =>
      rw [validateWithin, validateWithin, ih]
      simp only [h.resolveAll_eq]

theorem validate_eq : ws.validate = ws'.validate := by
  funext head
  rw [validate, validate, h.length_referenced_eq, h.validateWithin_eq]

theorem unrollOutcome_eq : ws.unrollOutcome = ws'.unrollOutcome := by
  funext limit body b count
  unfold unrollOutcome
  rw [h.resolve_eq, h.validate_eq]

theorem contributionOutcome_eq : ws.contributionOutcome = ws'.contributionOutcome := by
  funext opts body b
  unfold contributionOutcome
  simp only [h.step_eq, h.loopCount_eq, h.unrollOutcome_eq]

/-! ### Chains -/

theorem walkOutcome_eq (limit : Nat) (part : Block → Except Failure (List Step)) (bound : Nat) :
    ws.walkOutcome limit part bound = ws'.walkOutcome limit part bound := by
  induction bound with
  | zero => rfl
  | succ bound ih =>
    funext done b
    rw [walkOutcome, walkOutcome, ih, h.resolve_eq]

theorem chainOutcome_eq (opts : Options) (nest : Nat) :
    ws.chainOutcome opts nest = ws'.chainOutcome opts nest := by
  induction nest with
  | zero => rfl
  | succ nest ih =>
    funext head
    rw [chainOutcome, chainOutcome, ih, h.contributionOutcome_eq, h.walkOutcome_eq, walkBound,
      walkBound, h.size_eq]

end SameGraph

/-! ## Segments -/

/-- The head is a block, and its chain has these steps. -/
def Contributes (ws : Workspace) (opts : Options) (id : BlockId) (steps : List Step) : Prop :=
  ∃ head, ws.find? id = some head ∧ (ws.chain opts head).outcome = .ok steps

/-- The steps that a head contributes to a program; none if its chain has no steps to give. -/
def segment (ws : Workspace) (opts : Options) (id : BlockId) : List Step :=
  match ws.find? id with
  | some head => (ws.chain opts head).outcome.toOption.getD []
  | none => []

variable {opts : Options} {id : BlockId} {steps : List Step}

theorem Contributes.segment_eq (h : ws.Contributes opts id steps) :
    ws.segment opts id = steps := by
  obtain ⟨head, hhead, hsteps⟩ := h
  unfold segment
  rw [hhead]
  dsimp only
  rw [hsteps]
  rfl

theorem SameGraph.contributes_iff (h : ws.SameGraph ws') :
    ws.Contributes opts id steps ↔ ws'.Contributes opts id steps := by
  unfold Contributes
  simp only [outcome_chain, h.find?_eq, h.chainOutcome_eq, nestBound, h.size_eq]

theorem SameGraph.segment_eq (h : ws.SameGraph ws') : ws.segment opts = ws'.segment opts := by
  funext id
  unfold segment
  simp only [outcome_chain, h.find?_eq, h.chainOutcome_eq, nestBound, h.size_eq]

/-- A program has its steps exactly if every head contributes some and all together are not too
many.  The induction is on the heads; that the chains before them are not too many, which each
comparison on the way asks again, follows from the last. -/
theorem chainsOutcome_eq_ok_iff {done : Nat} (hdone : done ≤ opts.maxSteps) {heads : List BlockId} :
    ws.chainsOutcome opts done heads = .ok steps ↔
      (∀ id ∈ heads, ∃ segment, ws.Contributes opts id segment) ∧
        done + (heads.flatMap (ws.segment opts)).length ≤ opts.maxSteps ∧
        steps = heads.flatMap (ws.segment opts) := by
  induction heads generalizing done steps with
  | nil =>
    rw [chainsOutcome, Except.ok.injEq]
    constructor
    · rintro rfl
      exact ⟨nofun, hdone, rfl⟩
    · rintro ⟨-, -, rfl⟩
      rfl
  | cons id rest ih =>
    rw [List.forall_mem_cons, List.flatMap_cons, List.length_append]
    constructor
    · intro h
      obtain ⟨head, first, more, hhead, hfirst, hle, hmore, rfl⟩ := chainsOutcome_cons_eq_ok h
      have hcontributes : ws.Contributes opts id first :=
        ⟨head, hhead, (outcome_chain ws opts head).trans hfirst⟩
      obtain ⟨hrest, hlimit, rfl⟩ := (ih hle).mp hmore
      rw [hcontributes.segment_eq]
      exact ⟨⟨⟨first, hcontributes⟩, hrest⟩, by omega, rfl⟩
    · rintro ⟨⟨⟨first, hcontributes⟩, hrest⟩, hlimit, rfl⟩
      rw [hcontributes.segment_eq] at hlimit ⊢
      obtain ⟨head, hhead, hfirst⟩ := hcontributes
      rw [outcome_chain] at hfirst
      have hle : done + first.length ≤ opts.maxSteps := by omega
      have hcheck : checkLimit opts.maxSteps (done + first.length) id = .ok () :=
        checkLimit_eq_ok_iff.mpr hle
      have hmore := (ih hle).mpr ⟨hrest, by omega, rfl⟩
      rw [chainsOutcome, resolve_eq_ok_iff.mpr hhead, checked_ok, ok_bind, hfirst, ok_bind,
        hcheck, checked_ok, ok_bind, hmore]
      rfl

/-- The steps of a program in the order of other heads. -/
theorem chainsOutcome_eq_ok_of_perm {heads heads' : List BlockId} (h : heads.Perm heads')
    (hsteps : ws.chainsOutcome opts 0 heads = .ok steps) :
    ws.chainsOutcome opts 0 heads' = .ok (heads'.flatMap (ws.segment opts)) := by
  obtain ⟨hall, hlimit, -⟩ := (chainsOutcome_eq_ok_iff (Nat.zero_le _)).mp hsteps
  refine (chainsOutcome_eq_ok_iff (Nat.zero_le _)).mpr ⟨fun id hid => ?_, ?_, rfl⟩
  · exact hall id (h.mem_iff.mpr hid)
  · rwa [← (h.flatMap_right _).length_eq]

theorem SameGraph.chainsOutcome_eq (h : ws.SameGraph ws') (done : Nat) (heads : List BlockId) :
    ws.chainsOutcome opts done heads = ws'.chainsOutcome opts done heads := by
  induction heads generalizing done with
  | nil => rfl
  | cons id rest ih =>
    unfold chainsOutcome
    simp only [ih, h.resolve_eq, h.chainOutcome_eq, nestBound, h.size_eq]

/-- A program is the segments of its heads, one behind the other. -/
theorem compileFrom_eq_segments {heads : List BlockId} {doc : Document}
    (h : ws.compileFrom heads opts = .ok doc) :
    (∀ id ∈ heads, ws.Contributes opts id (ws.segment opts id)) ∧
      doc = Document.assemble opts.ids (heads.flatMap (ws.segment opts)) := by
  obtain ⟨steps, hsteps, rfl⟩ := compileFrom_eq_ok h
  obtain ⟨hall, -, rfl⟩ := (chainsOutcome_eq_ok_iff (Nat.zero_le _)).mp hsteps
  refine ⟨fun id hid => ?_, rfl⟩
  obtain ⟨segment, hsegment⟩ := hall id hid
  rwa [hsegment.segment_eq]

/-- The same heads in another order, in a workspace with the same blocks, make a program too. -/
theorem SameGraph.exists_compileFrom (h : ws.SameGraph ws') {heads heads' : List BlockId}
    (hheads : heads.Perm heads') {doc : Document} (hdoc : ws.compileFrom heads opts = .ok doc) :
    ∃ doc', ws'.compileFrom heads' opts = .ok doc' := by
  obtain ⟨steps, hsteps, -⟩ := compileFrom_eq_ok hdoc
  rw [h.chainsOutcome_eq] at hsteps
  refine ⟨Document.assemble opts.ids (heads'.flatMap (ws'.segment opts)), ?_⟩
  rw [compileFrom_eq, chainsOutcome_eq_ok_of_perm hheads hsteps]
  rfl

end BlockSteps.Workspace

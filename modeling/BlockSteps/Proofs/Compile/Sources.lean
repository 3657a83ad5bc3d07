import Mathlib
import BlockSteps.Proofs.Compile.Meaning
import BlockSteps.Proofs.Workspace.Forest

/-!
# Where the steps of a chain come from

A chain **holds** a block if the block is one of its links or stands, at whatever depth, in the body
of a loop that is one of its links.  `ChainHolds` and `BlockHolds` say so together with how often
the loops around the block are run, the outermost first.  They look at nothing but the references
that the compiler follows from a chain: what is attached to a value slot is held by no chain.

The turns of nested loops are numbered by tuples, one number for each loop.  `paths` lists the
tuples in the order in which nested loops pass through them, which is the lexicographic one
(`pairwise_paths`); there is one for every choice of a turn in each loop (`mem_paths`).

**Main statement.**  `exists_source_of_chainMeans`: every step of a chain is, but for its iteration
path, what an action held by the chain is made into, and its path is one of those of the loops
around that action.  `exists_source_of_program` says the same of several chains.
-/

namespace BlockSteps

/-! ## The step of an action -/

theorem Step.amendAll_params (s : Step) (params : List (String × Scalar)) :
    s.amendAll (params.map fun p => .param p.1 p.2) =
      { s with mainParams := s.mainParams.insertAll params } := by
  induction params generalizing s with
  | nil => rfl
  | cons p rest ih =>
    rw [List.map_cons, Step.amendAll_cons, ih]
    rfl

/-- What an action becomes: its names and hooks, and the parameters that were read, by name. -/
theorem Action.step_eq_ok_iff {ws : Workspace} {hooks : HookTable} {b : Block} {a : Action}
    {s : Step} :
    a.step ws hooks b = .ok s ↔ ∃ params, a.params ws b = .ok params ∧
      s = { a.bare hooks b with mainParams := Dict.ofList params } := by
  have hbare : (a.bare hooks b).mainParams = Dict.empty := by
    unfold bare
    split
    · rfl
    · rfl
  unfold Action.step
  rw [bind_eq_ok_iff]
  simp only [Step.amendAll_params, hbare]
  constructor
  · rintro ⟨params, hparams, h⟩
    exact ⟨params, hparams, (Except.ok.inj h).symm⟩
  · rintro ⟨params, hparams, rfl⟩
    exact ⟨params, hparams, rfl⟩

/-- Hooks change neither the id nor the names of a step, and no step begins inside a loop. -/
theorem Action.bare_eq (hooks : HookTable) (b : Block) (a : Action) :
    (a.bare hooks b).id = b.id ∧ (a.bare hooks b).stepName = a.stepName ∧
      (a.bare hooks b).mainFunc = a.mainFunc ∧ (a.bare hooks b).iteration = [] := by
  unfold bare
  split
  · exact ⟨rfl, rfl, rfl, rfl⟩
  · exact ⟨rfl, rfl, rfl, rfl⟩

/-! ## Turns of nested loops -/

/-- The numbers of the turns in nested loops that are run as often as given, the outermost first, in
the order in which the turns come. -/
def paths : List Nat → List (List Nat)
  | [] => [[]]
  | n :: trips => (List.range n).flatMap fun i => (paths trips).map (i :: ·)

/-- A path chooses one turn in each loop. -/
theorem mem_paths {trips path : List Nat} :
    path ∈ paths trips ↔ List.Forall₂ (· < ·) path trips := by
  induction trips generalizing path with
  | nil => simp [paths]
  | cons n trips ih =>
    rw [paths, List.mem_flatMap, List.forall₂_cons_right_iff]
    simp only [List.mem_range, List.mem_map, ih]
    constructor
    · rintro ⟨i, hi, rest, hrest, rfl⟩
      exact ⟨i, rest, hi, hrest, rfl⟩
    · rintro ⟨i, rest, hi, hrest, rfl⟩
      exact ⟨i, hi, rest, hrest, rfl⟩

/-- There are as many paths as the turns of the loops multiply to. -/
theorem length_paths (trips : List Nat) : (paths trips).length = trips.prod := by
  induction trips with
  | nil => rfl
  | cons n trips ih => simp [paths, List.length_flatMap, ih]

/-- The paths are listed in lexicographic order, and none twice. -/
theorem pairwise_paths (trips : List Nat) : (paths trips).Pairwise (· < ·) := by
  induction trips with
  | nil => simp [paths]
  | cons n trips ih =>
    rw [paths, List.pairwise_flatMap]
    refine ⟨fun i _ => ?_, List.pairwise_lt_range.imp fun {i j} hij => ?_⟩
    · rw [List.pairwise_map]
      exact ih.imp fun hpq => List.cons_lt_cons_iff.mpr (.inr ⟨rfl, hpq⟩)
    · rintro p hp q hq
      obtain ⟨p, -, rfl⟩ := List.mem_map.mp hp
      obtain ⟨q, -, rfl⟩ := List.mem_map.mp hq
      exact List.cons_lt_cons_iff.mpr (.inl hij)

namespace Workspace

/-! ## What a chain holds -/

mutual

/-- The second block is the first, or it stands in the body of the first; the loops around it, the
first block among them, are run as often as listed. -/
inductive BlockHolds (ws : Workspace) : Block → List Nat → Block → Prop where
  /-- A block holds itself, inside no loop. -/
  | self (b : Block) : BlockHolds ws b [] b
  /-- A loop holds what its body holds, and is the outermost loop around it. -/
  | body {b head c : Block} {l : Loop} {count : Option Float} {id : BlockId} {trips : List Nat}
      (hkind : b.kind = .ok (.loop l)) (hbody : b.statements.get? Kind.bodySlot = some id)
      (hhead : ws.find? id = some head) (hcount : ws.loopCount b l = .ok count)
      (hholds : ChainHolds ws head trips c) : BlockHolds ws b (turns count :: trips) c

/-- The chain that begins with the first block holds the second, inside loops that are run as often
as listed. -/
inductive ChainHolds (ws : Workspace) : Block → List Nat → Block → Prop where
  /-- A chain holds what its first block holds. -/
  | first {b c : Block} {trips : List Nat} (hholds : BlockHolds ws b trips c) :
      ChainHolds ws b trips c
  /-- A chain holds what the rest of it holds. -/
  | later {b next c : Block} {id : BlockId} {trips : List Nat} (hnext : b.next = some id)
      (hfound : ws.find? id = some next) (hholds : ChainHolds ws next trips c) :
      ChainHolds ws b trips c

end

variable {ws : Workspace} {hooks : HookTable} {b : Block}

/-- The step is, but for its iteration path, what the action block is made into. -/
def Makes (ws : Workspace) (hooks : HookTable) (b : Block) (s : Step) : Prop :=
  ∃ a t, b.kind = .ok (.action a) ∧ a.step ws hooks b = .ok t ∧
    s = { t with iteration := s.iteration }

theorem Makes.id_eq {s : Step} (h : ws.Makes hooks b s) : s.id = b.id := by
  obtain ⟨a, t, -, ht, hs⟩ := h
  obtain ⟨params, -, rfl⟩ := Action.step_eq_ok_iff.mp ht
  rw [hs]
  exact (a.bare_eq hooks b).1

mutual

/-- What a block holds is a block of the workspace. -/
theorem BlockHolds.mem {b c : Block} {trips : List Nat} :
    ws.BlockHolds b trips c → b ∈ ws.blocks → c ∈ ws.blocks
  | .self _, hb => hb
  | .body _ _ hhead _ hholds, _ => hholds.mem (mem_of_find? hhead)

/-- What a chain holds is a block of the workspace. -/
theorem ChainHolds.mem {b c : Block} {trips : List Nat} :
    ws.ChainHolds b trips c → b ∈ ws.blocks → c ∈ ws.blocks
  | .first hholds, hb => hholds.mem hb
  | .later _ hfound hholds, _ => hholds.mem (mem_of_find? hfound)

end

mutual

theorem BlockHolds.trans {b c d : Block} {trips more : List Nat} :
    ws.BlockHolds b trips c → ws.ChainHolds c more d → ws.ChainHolds b (trips ++ more) d
  | .self _, hmore => hmore
  | .body hkind hbody hhead hcount hholds, hmore =>
    .first (.body hkind hbody hhead hcount (hholds.trans hmore))

/-- What is held by the rest of a chain or body is held by the whole, inside the loops around the
rest and those within it. -/
theorem ChainHolds.trans {b c d : Block} {trips more : List Nat} :
    ws.ChainHolds b trips c → ws.ChainHolds c more d → ws.ChainHolds b (trips ++ more) d
  | .first hholds, hmore => hholds.trans hmore
  | .later hnext hfound hholds, hmore => .later hnext hfound (hholds.trans hmore)

end

/-- The step of a document is, but for its iteration path, what the action block is made into, with
this path written behind the id if the policy says so. -/
def WrittenFrom (ws : Workspace) (opts : Options) (b : Block) (s : Step) : Prop :=
  ws.Makes opts.hooks b { s with id := b.id } ∧
    s.id = { s with id := b.id }.renderedId opts.ids

/-- Writing the id of a step does not change its source. -/
theorem Makes.writtenFrom {opts : Options} {s : Step} (h : ws.Makes opts.hooks b s) :
    ws.WrittenFrom opts b (s.rendered opts.ids) := by
  have hs : { s.rendered opts.ids with id := b.id } = s := by rw [← h.id_eq]; rfl
  unfold WrittenFrom
  rw [hs]
  exact ⟨h, rfl⟩

/-- The path of a step is known, so its id can be read off the one that is written. -/
theorem WrittenFrom.id_eq {opts : Options} {s : Step}
    (h : ws.WrittenFrom opts b (s.rendered opts.ids)) : s.id = b.id := by
  have hid : s.renderedId opts.ids = { s with id := b.id }.renderedId opts.ids := h.2
  unfold Step.renderedId at hid
  split at hid
  · exact hid
  · split at hid
    · exact hid
    · have hchars := congrArg String.toList hid
      simp only [String.toList_append, List.append_cancel_right_eq] at hchars
      exact String.toList_inj.mp hchars

/-! ## Every step has its source -/

/-- A block holds the source of the step, inside loops among whose paths is the path of the step. -/
def BlockHoldsSource (ws : Workspace) (hooks : HookTable) (b : Block) (s : Step) : Prop :=
  ∃ trips c, ws.BlockHolds b trips c ∧ ws.Makes hooks c s ∧ s.iteration ∈ paths trips

/-- A chain holds the source of the step, inside loops among whose paths is the path of the step. -/
def ChainHoldsSource (ws : Workspace) (hooks : HookTable) (b : Block) (s : Step) : Prop :=
  ∃ trips c, ws.ChainHolds b trips c ∧ ws.Makes hooks c s ∧ s.iteration ∈ paths trips

theorem ChainHoldsSource.of_first {s : Step} (h : ws.BlockHoldsSource hooks b s) :
    ws.ChainHoldsSource hooks b s := by
  obtain ⟨trips, c, hholds, hmakes, hpath⟩ := h
  exact ⟨trips, c, .first hholds, hmakes, hpath⟩

theorem ChainHoldsSource.of_later {next : Block} {id : BlockId} {s : Step}
    (hnext : b.next = some id) (hfound : ws.find? id = some next)
    (h : ws.ChainHoldsSource hooks next s) : ws.ChainHoldsSource hooks b s := by
  obtain ⟨trips, c, hholds, hmakes, hpath⟩ := h
  exact ⟨trips, c, .later hnext hfound hholds, hmakes, hpath⟩

/-- One turn of a loop puts its number in front of the path, as the loop stands in front of those
around the source. -/
theorem BlockHoldsSource.of_turn {head : Block} {l : Loop} {count : Option Float} {id : BlockId}
    {s : Step} {i : Nat} (hkind : b.kind = .ok (.loop l))
    (hbody : b.statements.get? Kind.bodySlot = some id) (hhead : ws.find? id = some head)
    (hcount : ws.loopCount b l = .ok count) (hi : i < turns count)
    (h : ws.ChainHoldsSource hooks head s) :
    ws.BlockHoldsSource hooks b { s with iteration := i :: s.iteration } := by
  obtain ⟨trips, c, hholds, ⟨a, t, hc, ht, hs⟩, hpath⟩ := h
  refine ⟨turns count :: trips, c, .body hkind hbody hhead hcount hholds, ⟨a, t, hc, ht, ?_⟩, ?_⟩
  · rw [hs]
  · rw [mem_paths] at hpath ⊢
    exact .cons hi hpath

mutual

theorem exists_source_of_blockMeans {b : Block} {steps : List Step} :
    ws.BlockMeans hooks b steps → ∀ s ∈ steps, ws.BlockHoldsSource hooks b s
  | .action (a := a) hkind hstep, s, hs => by
    obtain rfl := List.mem_singleton.mp hs
    have hiteration : s.iteration = [] := by
      obtain ⟨params, -, rfl⟩ := Action.step_eq_ok_iff.mp hstep
      exact (a.bare_eq hooks b).2.2.2
    refine ⟨[], b, .self b, ⟨a, s, hkind, hstep, rfl⟩, ?_⟩
    rw [hiteration]
    exact List.mem_singleton_self []
  | .value _, _, hs => absurd hs List.not_mem_nil
  | .noBody _ _, _, hs => absurd hs List.not_mem_nil
  | .notRun _ _ _, _, hs => absurd hs List.not_mem_nil
  | .run hkind hbody hhead hcount _ hmeans, s, hs => by
    obtain ⟨i, hi, hs⟩ := List.mem_flatMap.mp hs
    obtain ⟨t, ht, rfl⟩ := List.mem_map.mp hs
    exact .of_turn hkind hbody hhead hcount (List.mem_range.mp hi)
      (exists_source_of_chainMeans hmeans t ht)

/-- Every step that a chain means has its source in the chain. -/
theorem exists_source_of_chainMeans {b : Block} {steps : List Step} :
    ws.ChainMeans hooks b steps → ∀ s ∈ steps, ws.ChainHoldsSource hooks b s
  | .last hblock _, s, hs => .of_first (exists_source_of_blockMeans hblock s hs)
  | .link hblock hnext hfound hrest, s, hs => by
    rcases List.mem_append.mp hs with hs | hs
    · exact .of_first (exists_source_of_blockMeans hblock s hs)
    · exact .of_later hnext hfound (exists_source_of_chainMeans hrest s hs)

end

/-- A step of a program is made from an action that one of its chains holds. -/
theorem exists_source_of_program {heads : List BlockId} {chains : List (List Step)}
    (hchains : List.Forall₂ (ws.HeadMeans hooks) heads chains) :
    ∀ s ∈ chains.flatten, ∃ top ∈ heads, ∃ head trips b, ws.find? top = some head ∧
      ws.ChainHolds head trips b ∧ ws.Makes hooks b s ∧ s.iteration ∈ paths trips := by
  intro s hs
  obtain ⟨chain, hchain, hs⟩ := List.mem_flatten.mp hs
  obtain ⟨top, htop, head, hfound, hmeans⟩ := exists_of_forall₂ hchains hchain
  obtain ⟨trips, b, hholds, hmakes, hpath⟩ := exists_source_of_chainMeans hmeans s hs
  exact ⟨top, htop, head, trips, b, hfound, hholds, hmakes, hpath⟩

/-- A step of a program is made from a block of the workspace. -/
theorem exists_makes_of_program {heads : List BlockId} {chains : List (List Step)}
    (hchains : List.Forall₂ (ws.HeadMeans hooks) heads chains) :
    ∀ s ∈ chains.flatten, ∃ b ∈ ws.blocks, ws.Makes hooks b s := by
  intro s hs
  obtain ⟨top, -, head, trips, b, hfound, hholds, hmakes, -⟩ :=
    exists_source_of_program hchains s hs
  exact ⟨b, hholds.mem (mem_of_find? hfound), hmakes⟩

end Workspace

end BlockSteps

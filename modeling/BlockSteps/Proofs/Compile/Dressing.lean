import Mathlib
import BlockSteps.Proofs.Compile.HookParameters
import BlockSteps.Proofs.Compile.Parts
import BlockSteps.Proofs.Compile.WrittenIds

/-!
# Hooks and written ids are put on at the end

Hooks are given to a step when it is made, at the bottom of all loops, and are copied with it from
there.  They could as well be put on when the program is complete.  `Step.dress` puts on a step the
bundle of its main function; the functions of the compiler commute with it one by one
(`step_eq_dress` to `chainsOutcome_dress`), because none of them reads what it puts on and a copy
keeps it.  Ids are written at the end as it is.

So there is one compilation for each limit, that of `Options.plain`, and a document is its steps,
dressed and with their ids written (`compileFrom_eq_dress`).  No step of it has hooks before it is
dressed, so none is put on twice.

**Main statement.**  `compileFrom_alike`: under one limit, whatever the hooks and the policy for ids
are, compilation has one outcome but for what these say themselves.
-/

namespace BlockSteps

/-! ## Dressing a step -/

namespace Step

/-- The step with the bundle of its main function around it. -/
def dress (table : HookTable) (s : Step) : Step := s.withHooks (HookTable.bundle table s.mainFunc)

/-- A copy of a dressed step is dressed. -/
@[simp] theorem dress_inTurn (table : HookTable) (s : Step) (turn : Nat) :
    (s.inTurn turn).dress table = (s.dress table).inTurn turn := rfl

end Step

/-- A bare step is one without hooks that was dressed. -/
theorem Action.bare_eq_dress (table : HookTable) (b : Block) (a : Action) :
    a.bare table b = (a.bare {} b).dress table := by
  have hplain : a.bare {} b = { id := b.id, stepName := a.stepName, mainFunc := a.mainFunc } := rfl
  rw [hplain, Step.dress, HookTable.bundle, bare]
  cases table.get? a.mainFunc with
  | none => rfl
  | some h => rfl

/-- Copies of dressed steps are dressed copies. -/
theorem unrolled_dress (table : HookTable) (trips : Nat) (body : List Step) :
    unrolled trips (body.map (Step.dress table)) =
      (unrolled trips body).map (Step.dress table) := by
  simp [unrolled, List.map_flatMap, Function.comp_def]

/-! ## Dressing a compilation -/

section Mapped

variable {ε α α' β β' : Type} {x : Except ε α} {g : α → Except ε β} {k : β → β'}

/-- Two sequences with one first part differ by a map if what follows does. -/
theorem bind_eq_map {g' : α → Except ε β'} (h : ∀ a, g' a = k <$> g a) :
    (x >>= g') = k <$> (x >>= g) := by
  rw [map_bind]
  exact bind_congr h

/-- The first parts may differ by a map too, if what follows takes it on. -/
theorem map_bind_eq_map {f : α → α'} {g' : α' → Except ε β'} (h : ∀ a, g' (f a) = k <$> g a) :
    (f <$> x >>= g') = k <$> (x >>= g) := by
  rw [bind_map_left]
  exact bind_eq_map h

end Mapped

/-- The same limit, without hooks and with the ids as they are. -/
def Options.plain (opts : Options) : Options := { maxSteps := opts.maxSteps }

namespace Workspace

variable {ws : Workspace} {table : HookTable} {opts : Options}

theorem step_eq_dress (b : Block) (a : Action) :
    a.step ws table b = Step.dress table <$> a.step ws {} b := by
  apply bind_eq_map
  intro params
  rw [map_pure, Step.amendAll_params, Step.amendAll_params, Action.bare_eq_dress]
  rfl

theorem repeatOutcome_dress (limit : Nat) (block : BlockId) (trips : Float) (steps : List Step) :
    repeatOutcome limit block trips (steps.map (Step.dress table)) =
      List.map (Step.dress table) <$> repeatOutcome limit block trips steps := by
  unfold repeatOutcome
  rw [List.isEmpty_map, List.length_map, unrolled_dress]
  split
  · rfl
  · split
    · rfl
    · rfl

section

variable {dressed plain : Block → Except Failure (List Step)}
  (h : ∀ b, dressed b = List.map (Step.dress table) <$> plain b)
include h

theorem unrollOutcome_dress (limit : Nat) (b : Block) (count : Option Float) :
    ws.unrollOutcome limit dressed b count =
      List.map (Step.dress table) <$> ws.unrollOutcome limit plain b count := by
  unfold unrollOutcome
  cases b.statements.get? Kind.bodySlot with
  | none => rfl
  | some id =>
    apply bind_eq_map
    intro head
    by_cases hzero : Decimal.isZero (tripCount count) = true
    · rw [if_pos hzero, if_pos hzero]
      apply bind_eq_map
      intro _
      rfl
    · rw [if_neg hzero, if_neg hzero, h head]
      apply map_bind_eq_map
      intro steps
      exact repeatOutcome_dress limit b.id (tripCount count) steps

theorem walkOutcome_dress (limit bound done : Nat) (b : Block) :
    ws.walkOutcome limit dressed bound done b =
      List.map (Step.dress table) <$> ws.walkOutcome limit plain bound done b := by
  induction bound generalizing done b with
  | zero => rfl
  | succ bound ih =>
    rw [walkOutcome, walkOutcome, h b]
    apply map_bind_eq_map
    intro more
    rw [List.length_map]
    apply bind_eq_map
    intro _
    cases b.next with
    | none => rfl
    | some id =>
      apply bind_eq_map
      intro next
      rw [ih]
      apply map_bind_eq_map
      intro rest
      rw [map_pure, List.map_append]

end

/-- What a block contributes under hooks is what it contributes without them, dressed. -/
theorem contributionOutcome_dress {dressed plain : Block → Except Failure (List Step)}
    (h : ∀ b, dressed b = List.map (Step.dress opts.hooks) <$> plain b) (b : Block) :
    ws.contributionOutcome opts dressed b =
      List.map (Step.dress opts.hooks) <$> ws.contributionOutcome opts.plain plain b := by
  apply bind_eq_map
  intro k
  cases k with
  | expression e => rfl
  | action a =>
    dsimp only
    rw [step_eq_dress]
    apply map_bind_eq_map
    intro s
    rfl
  | loop l =>
    apply bind_eq_map
    intro count
    exact unrollOutcome_dress h opts.maxSteps b count

theorem chainOutcome_dress (nest : Nat) (head : Block) :
    ws.chainOutcome opts nest head =
      List.map (Step.dress opts.hooks) <$> ws.chainOutcome opts.plain nest head := by
  induction nest generalizing head with
  | zero => rfl
  | succ nest ih => exact walkOutcome_dress (contributionOutcome_dress ih) _ _ 0 head

theorem chainsOutcome_dress (done : Nat) (heads : List BlockId) :
    ws.chainsOutcome opts done heads =
      List.map (Step.dress opts.hooks) <$> ws.chainsOutcome opts.plain done heads := by
  induction heads generalizing done with
  | nil => rfl
  | cons id rest ih =>
    rw [chainsOutcome, chainsOutcome]
    apply bind_eq_map
    intro head
    rw [chainOutcome_dress]
    apply map_bind_eq_map
    intro steps
    rw [List.length_map]
    apply bind_eq_map
    intro _
    rw [ih]
    apply map_bind_eq_map
    intro more
    rw [map_pure, List.map_append]

/-- A document is the steps of the one compilation without hooks, dressed and with their ids
written. -/
theorem compileFrom_eq_dress (heads : List BlockId) :
    ws.compileFrom heads opts =
      (fun steps => Document.assemble opts.ids (steps.map (Step.dress opts.hooks))) <$>
        ws.chainsOutcome opts.plain 0 heads := by
  rw [compileFrom_eq, chainsOutcome_dress]
  cases ws.chainsOutcome opts.plain 0 heads with
  | error f => rfl
  | ok steps => rfl

end Workspace

/-! ## What stands in a document -/

/-- How the id of a block is written for a copy with the given path. -/
def IdPolicy.spell : IdPolicy → String → List Nat → String
  | .reuse, id, _ => id
  | .indexed, id, [] => id
  | .indexed, id, path => id ++ "#" ++ ".".intercalate (path.map toString)

namespace Step

theorem dotted_eq_intercalate (path : List Nat) :
    dotted path = ".".intercalate (path.map toString) := by
  apply String.toList_inj.mp
  rw [toList_dotted, String.toList_intercalate, List.map_map]
  congr 1
  apply List.map_congr_left
  intro n _
  exact String.toList_ofList.symm

theorem renderedId_eq_spell (policy : IdPolicy) (s : Step) :
    s.renderedId policy = policy.spell s.id s.iteration := by
  cases policy with
  | reuse => rfl
  | indexed =>
    cases hpath : s.iteration with
    | nil => exact renderedId_of_nil .indexed hpath
    | cons n rest =>
      rw [renderedId_indexed (by simp [hpath]), hpath, dotted_eq_intercalate]
      rfl

/-- Two steps are one call at one place: they differ in nothing but id and hooks. -/
structure SameCall (s t : Step) : Prop where
  /-- The name shown to people is the same. -/
  stepName_eq : s.stepName = t.stepName
  /-- The main function is the same. -/
  mainFunc_eq : s.mainFunc = t.mainFunc
  /-- Its parameters are the same. -/
  mainParams_eq : s.mainParams = t.mainParams
  /-- The turns of the loops around it are the same. -/
  iteration_eq : s.iteration = t.iteration

/-- The step calls the main function of the action block, under the id of the block as the policy
writes it, and with the hooks that the table bundles with this function and no others. -/
structure StandsFor (opts : Options) (b : Block) (s : Step) : Prop where
  /-- The block is an action with the names of the step. -/
  action : ∃ a : Action, b.kind = .ok (.action a) ∧ s.stepName = a.stepName ∧
    s.mainFunc = a.mainFunc
  /-- The id is that of the block, with the path if the policy says so. -/
  id_eq : s.id = opts.ids.spell b.id s.iteration
  /-- The functions called before are those of the bundle. -/
  preFuncs_eq : s.preFuncs = (HookTable.bundle opts.hooks s.mainFunc).pre
  /-- So are their parameters. -/
  preParams_eq : s.preParams = (HookTable.bundle opts.hooks s.mainFunc).preParams
  /-- The functions called after are those of the bundle. -/
  postFuncs_eq : s.postFuncs = (HookTable.bundle opts.hooks s.mainFunc).post
  /-- So are their parameters. -/
  postParams_eq : s.postParams = (HookTable.bundle opts.hooks s.mainFunc).postParams

end Step

namespace Workspace

variable {ws : Workspace} {opts opts' : Options}

/-- What an action is made into without hooks has none, so that dressed it has those of its bundle
only. -/
theorem Makes.standsFor {b : Block} {s : Step} (h : ws.Makes {} b s) :
    ((s.dress opts.hooks).rendered opts.ids).StandsFor opts b := by
  obtain ⟨a, t, hkind, ht, hs⟩ := h
  obtain ⟨params, -, rfl⟩ := Action.step_eq_ok_iff.mp ht
  have hs : s =
      { id := b.id, stepName := a.stepName, mainFunc := a.mainFunc,
        mainParams := Dict.ofList params, iteration := s.iteration } := hs
  rw [hs]
  exact {
    action := ⟨a, hkind, rfl, rfl⟩
    id_eq := Step.renderedId_eq_spell opts.ids _
    preFuncs_eq := rfl
    preParams_eq := Dict.empty_override _
    postFuncs_eq := rfl
    postParams_eq := Dict.empty_override _ }

/-- Every step of a document stands for a block. -/
theorem standsFor_of_compileFrom {heads : List BlockId} {doc : Document}
    (h : ws.compileFrom heads opts = .ok doc) :
    ∀ s ∈ doc.steps, ∃ b ∈ ws.blocks, s.StandsFor opts b := by
  rw [compileFrom_eq_dress] at h
  cases hsteps : ws.chainsOutcome opts.plain 0 heads with
  | error f =>
    rw [hsteps] at h
    cases h
  | ok steps =>
    rw [hsteps] at h
    cases h
    obtain ⟨chains, hchains, rfl⟩ := headMeans_of_chainsOutcome hsteps
    simp only [Document.assemble, List.forall_mem_map]
    intro s hs
    obtain ⟨b, hb, hmakes⟩ := exists_makes_of_program hchains s hs
    exact ⟨b, hb, hmakes.standsFor⟩

/-- **Hooks and written ids are no part of the compilation.**  Without circles, from any heads (the
top blocks are those of `compile`), and under one limit, two compilations with any two hook tables
and any two policies for ids either both fail with the same error, or they give documents of the
same calls, one by one.  Two steps at one place stand for the same block, each with the id that its
own policy writes and with exactly the hooks that its own table bundles with the main function. -/
theorem compileFrom_alike (hacyclic : ws.Acyclic) (heads : List BlockId)
    (hlimit : opts.maxSteps = opts'.maxSteps) :
    (∃ e, ws.compileFrom heads opts = .error (.rejected e) ∧
      ws.compileFrom heads opts' = .error (.rejected e)) ∨
    ∃ doc doc', ws.compileFrom heads opts = .ok doc ∧ ws.compileFrom heads opts' = .ok doc' ∧
      List.Forall₂ (fun s s' => s.SameCall s' ∧
        ∃ b ∈ ws.blocks, s.StandsFor opts b ∧ s'.StandsFor opts' b) doc.steps doc'.steps := by
  have hplain : opts.plain = opts'.plain := by rw [Options.plain, Options.plain, hlimit]
  have hends := compileFrom_ne_endless hacyclic heads opts
  rw [compileFrom_eq_dress] at hends ⊢
  rw [compileFrom_eq_dress, ← hplain]
  cases hsteps : ws.chainsOutcome opts.plain 0 heads with
  | error f =>
    cases f with
    | rejected e => exact .inl ⟨e, rfl, rfl⟩
    | endless =>
      rw [hsteps] at hends
      exact absurd rfl hends
  | ok steps =>
    refine .inr ⟨_, _, rfl, rfl, ?_⟩
    obtain ⟨chains, hchains, rfl⟩ := headMeans_of_chainsOutcome hsteps
    have hsources : ∀ s ∈ chains.flatten, ∃ b ∈ ws.blocks, ws.Makes {} b s :=
      exists_makes_of_program hchains
    simp only [Document.assemble, List.forall₂_map_left_iff, List.forall₂_map_right_iff,
      List.forall₂_same]
    intro s hs
    obtain ⟨b, hb, hmakes⟩ := hsources s hs
    exact ⟨⟨rfl, rfl, rfl, rfl⟩, b, hb, hmakes.standsFor, hmakes.standsFor⟩

/-- Options under which every wait is announced and logged, and copies are numbered. -/
def announcing : Options where
  maxSteps := 4
  ids := .indexed
  hooks := .ofList [
    ("acquire_frame", { pre := ["open_shutter"] }),
    ("wait_time",
      { pre := ["announce"], preParams := .ofList [("seconds", .number 3)],
        post := ["log", "log"], postParams := .ofList [("level", .text "info")] })]

/-- The four steps of `loopInLoop` are the same calls with and without hooks. -/
theorem compileFrom_alike_loopInLoop :
    loopInLoop.Acyclic ∧ announcing.maxSteps = Options.maxSteps { maxSteps := 4 } ∧
    ∃ doc doc', loopInLoop.compile announcing = .ok doc ∧
      loopInLoop.compile { maxSteps := 4 } = .ok doc' ∧ doc.length = 4 ∧
      List.Forall₂ (fun s s' => s.SameCall s' ∧ ∃ b ∈ loopInLoop.blocks,
        s.StandsFor announcing b ∧ s'.StandsFor { maxSteps := 4 } b) doc.steps doc'.steps := by
  have hlength : (loopInLoop.compile announcing).map Document.length = .ok 4 := by decide +kernel
  have hlimit : announcing.maxSteps = Options.maxSteps { maxSteps := 4 } := rfl
  refine ⟨acyclic_loopInLoop, hlimit, ?_⟩
  obtain ⟨e, he, -⟩ | ⟨doc, doc', hdoc, hdoc', halike⟩ :=
    compileFrom_alike acyclic_loopInLoop loopInLoop.topIds hlimit
  · have he : loopInLoop.compile announcing = .error (.rejected e) := he
    rw [he] at hlength
    cases hlength
  · have hdoc : loopInLoop.compile announcing = .ok doc := hdoc
    rw [hdoc] at hlength
    exact ⟨doc, doc', hdoc, hdoc', Except.ok.inj hlength, halike⟩

end Workspace

end BlockSteps

import Mathlib
import BlockSteps.Settings.Loading
import BlockSteps.Proofs.Compile.Parameters
import BlockSteps.Proofs.Compile.Rearranged
import BlockSteps.Proofs.Step.RoundTrip

/-!
# Parameters that come from the hook table

A parameter of a main function is read from the blocks, and no number gets there that is not finite
(`fitsAction_of_compileFrom`).  The parameters of the functions around it are taken from the hook
table of the settings, as they are.  Nothing on this way looks at them: settings are accepted
whatever numbers their hooks have, and the format of settings has words for the numbers that are
none.

So what holds of a document depends on the table.  Its hook parameters are finite exactly if the
bundles of its main functions are, and otherwise `null` stands in it, which no one can read back.

**Main statement.**  `finiteHooks_iff_of_validate`: accepted settings keep `null` out of every
document exactly if the bundle of each of the four main functions has finite numbers only.
`nan_of_announced` is a settings file that does not.
-/

namespace BlockSteps

/-! ## Bundles -/

namespace Dict

theorem empty_override {α : Type} (e : Dict α) : (empty : Dict α).override e = e :=
  ext_entries (entries_ofList e.increasing)

end Dict

/-- The numbers of a bundle are finite. -/
structure Hooks.IsFinite (h : Hooks) : Prop where
  /-- Those of the functions called before. -/
  pre : FiniteParams h.preParams
  /-- Those of the functions called after. -/
  post : FiniteParams h.postParams

/-- The bundle of a main function, empty if it has none. -/
def HookTable.bundle (table : HookTable) (mainFunc : String) : Hooks :=
  (table.get? mainFunc).getD {}

/-- The hook parameters of a bare step are those of its bundle. -/
theorem Action.bare_hooks (hooks : HookTable) (b : Block) (a : Action) :
    (a.bare hooks b).preParams = (HookTable.bundle hooks a.mainFunc).preParams ∧
      (a.bare hooks b).postParams = (HookTable.bundle hooks a.mainFunc).postParams := by
  unfold bare HookTable.bundle
  cases hooks.get? a.mainFunc with
  | none => exact ⟨rfl, rfl⟩
  | some h => exact ⟨Dict.empty_override _, Dict.empty_override _⟩

/-! ## Documents -/

/-- The numbers among the hook parameters of a step are finite. -/
def Step.FiniteHooks (s : Step) : Prop := FiniteParams s.preParams ∧ FiniteParams s.postParams

instance (s : Step) : Decidable s.FiniteHooks :=
  inferInstanceAs (Decidable (_ ∧ _))

/-- No parameter of a step stands in its document as `null`. -/
def Step.WithoutNull (s : Step) : Prop :=
  ∀ v ∈ s.mainParams.values ++ s.preParams.values ++ s.postParams.values,
    ∀ layout, v.json.write layout ≠ "null"

namespace Workspace

variable {ws : Workspace}

/-- Every step of a document has the hook parameters of the bundle of its main function, which is
that of an action, and finite parameters for the main function itself. -/
theorem hooks_of_compileFrom {heads : List BlockId} {opts : Options} {doc : Document}
    (h : ws.compileFrom heads opts = .ok doc) :
    ∀ s ∈ doc.steps, (∃ a : Action, s.mainFunc = a.mainFunc) ∧ FiniteParams s.mainParams ∧
      s.preParams = (HookTable.bundle opts.hooks s.mainFunc).preParams ∧
      s.postParams = (HookTable.bundle opts.hooks s.mainFunc).postParams := by
  intro s hs
  obtain ⟨b, -, a, -, hwritten, hfits⟩ := (fitsAction_of_compileFrom h).1 s hs
  obtain ⟨a', t, -, ht, hs'⟩ := hwritten.1
  obtain ⟨params, -, rfl⟩ := Action.step_eq_ok_iff.mp ht
  obtain ⟨hpre, hpost⟩ := a'.bare_hooks opts.hooks b
  have hmain : s.mainFunc = a'.mainFunc :=
    (congrArg Step.mainFunc hs').trans (a'.bare_eq opts.hooks b).2.2.1
  refine ⟨⟨a', hmain⟩, ?_, ?_, ?_⟩
  · intro v hv
    obtain ⟨p, hp, rfl⟩ := List.mem_map.mp hv
    have hsuits := hfits.values p hp
    unfold Scalar.SuitsName at hsuits
    split at hsuits
    · obtain ⟨t, ht⟩ := hsuits
      rw [ht]
      trivial
    · obtain ⟨x, hx, hfinite⟩ := hsuits
      rw [hx]
      exact hfinite
  · rw [hmain]
    exact (congrArg Step.preParams hs').trans hpre
  · rw [hmain]
    exact (congrArg Step.postParams hs').trans hpost

/-- A step of a document has finite hook parameters exactly if its bundle has, and exactly if none
of its parameters is written as `null`. -/
theorem finiteHooks_iff {heads : List BlockId} {opts : Options} {doc : Document}
    (h : ws.compileFrom heads opts = .ok doc) {s : Step} (hs : s ∈ doc.steps) :
    (s.FiniteHooks ↔ (HookTable.bundle opts.hooks s.mainFunc).IsFinite) ∧
      (s.WithoutNull ↔ s.FiniteHooks) := by
  obtain ⟨-, hmain, hpre, hpost⟩ := hooks_of_compileFrom h s hs
  constructor
  · unfold Step.FiniteHooks
    rw [hpre, hpost]
    exact ⟨fun ⟨h₁, h₂⟩ => ⟨h₁, h₂⟩, fun ⟨h₁, h₂⟩ => ⟨h₁, h₂⟩⟩
  · have hnull : ∀ v : Scalar, (∀ layout, v.json.write layout ≠ "null") ↔ v.IsFinite := fun v =>
      ⟨fun h => not_not.mp fun hv => h .compact ((Scalar.write_eq_null_iff .compact).mpr hv),
        fun hv layout hwrite => (Scalar.write_eq_null_iff layout).mp hwrite hv⟩
    unfold Step.WithoutNull Step.FiniteHooks
    simp only [hnull, List.forall_mem_append]
    exact ⟨fun ⟨⟨_, h₁⟩, h₂⟩ => ⟨h₁, h₂⟩, fun ⟨h₁, h₂⟩ => ⟨⟨hmain, h₁⟩, h₂⟩⟩

/-! ## Settings -/

/-- A workspace of one action, which takes all its parameters from the defaults. -/
def loneAction (a : Action) : Workspace where
  blocks := #[{ id := "a", type := (Kind.action a).tag }]
  distinct := List.nodup_singleton _

/-- A chain of one action is its step, if one step is allowed. -/
theorem chain_of_single {opts : Options} {b : Block} {a : Action} {s : Step}
    (hpos : 0 < opts.maxSteps) (hkind : b.kind = .ok (.action a)) (hnext : b.next = none)
    (hstep : a.step ws opts.hooks b = .ok s) : (ws.chain opts b).outcome = .ok [s] := by
  have hpart : ∀ body, ws.contributionOutcome opts body b = .ok [s] := fun body => by
    rw [contributionOutcome, hkind, checked_ok, ok_bind]
    dsimp only
    rw [hstep]
    rfl
  have hlimit : checkLimit opts.maxSteps (0 + [s].length) b.id = .ok () :=
    checkLimit_eq_ok_iff.mpr hpos
  obtain ⟨bound, hbound⟩ : ∃ bound, ws.walkBound opts.maxSteps = bound + 1 :=
    Nat.exists_eq_succ_of_ne_zero (Nat.mul_ne_zero (Nat.succ_ne_zero _) (Nat.succ_ne_zero _))
  rw [outcome_chain, nestBound, chainOutcome, hbound, walkOutcome, hpart, ok_bind, hlimit, hnext]
  rfl

/-- A single action is compiled, if one step is allowed. -/
theorem exists_compile_loneAction (a : Action) {opts : Options} (hpos : 0 < opts.maxSteps) :
    ∃ doc, (loneAction a).compile opts = .ok doc ∧ ∃ s ∈ doc.steps, s.mainFunc = a.mainFunc := by
  obtain ⟨b, hb⟩ : ∃ b : Block, b = { id := "a", type := (Kind.action a).tag } := ⟨_, rfl⟩
  have htop : (loneAction a).topIds = ["a"] := by cases a <;> decide +kernel
  have hfound : (loneAction a).find? "a" = some b := by
    rw [hb]
    rfl
  have hkind : b.kind = .ok (.action a) := by
    rw [Block.kind, hb, Kind.ofTag?_eq_some_iff.mpr rfl]
  obtain ⟨params, hparams⟩ : ∃ params, a.params (loneAction a) b = .ok params := by
    rw [hb]
    cases a <;> exact ⟨_, rfl⟩
  have hstep : a.step (loneAction a) opts.hooks b =
      .ok { a.bare opts.hooks b with mainParams := Dict.ofList params } :=
    Action.step_eq_ok_iff.mpr ⟨params, hparams, rfl⟩
  have hcontributes := chain_of_single hpos hkind (by rw [hb]) hstep
  generalize hs : { a.bare opts.hooks b with mainParams := Dict.ofList params } = s
    at hcontributes
  have hmain : s.mainFunc = a.mainFunc := by
    rw [← hs]
    exact (a.bare_eq opts.hooks b).2.2.1
  have hcontributes : (loneAction a).Contributes opts "a" [s] := ⟨b, hfound, hcontributes⟩
  have hsteps : (loneAction a).chainsOutcome opts 0 ["a"] = .ok [s] := by
    refine (chainsOutcome_eq_ok_iff (Nat.zero_le _)).mpr ⟨?_, ?_, ?_⟩
    · exact List.forall_mem_singleton.mpr ⟨[s], hcontributes⟩
    · rw [List.flatMap_singleton, hcontributes.segment_eq, Nat.zero_add]
      exact hpos
    · rw [List.flatMap_singleton, hcontributes.segment_eq]
  refine ⟨Document.assemble opts.ids [s], ?_, s.rendered opts.ids, List.mem_cons_self, hmain⟩
  rw [compile, compileFrom_eq, htop, hsteps]
  rfl

end Workspace

namespace Settings

/-- Accepted settings allow a step. -/
theorem maxSteps_pos_of_validate {s : Settings} (h : s.validate = .ok ()) :
    0 < s.compilation.maxSteps := by
  refine Nat.pos_of_ne_zero fun hzero => ?_
  unfold validate at h
  dsimp only at h
  split at h
  · cases h
  · split at h
    · cases h
    · cases h

/-- **Which settings keep numbers that are none out of documents.**  For accepted settings, all hook
parameters of all documents are finite exactly if the bundles of the four main functions hold finite
numbers only; and that is the case exactly if no parameter of any document is `null`. -/
theorem finiteHooks_iff_of_validate {s : Settings} (h : s.validate = .ok ()) :
    ((∀ (ws : Workspace) (doc : Document), ws.compile s.options = .ok doc →
        ∀ step ∈ doc.steps, step.FiniteHooks) ↔
      ∀ a : Action, (HookTable.bundle s.hooks a.mainFunc).IsFinite) ∧
    ((∀ (ws : Workspace) (doc : Document), ws.compile s.options = .ok doc →
        ∀ step ∈ doc.steps, step.WithoutNull) ↔
      ∀ a : Action, (HookTable.bundle s.hooks a.mainFunc).IsFinite) := by
  have hfinite : (∀ (ws : Workspace) (doc : Document), ws.compile s.options = .ok doc →
      ∀ step ∈ doc.steps, step.FiniteHooks) ↔
      ∀ a : Action, (HookTable.bundle s.hooks a.mainFunc).IsFinite := by
    constructor
    · intro hall a
      have hpos : 0 < s.options.maxSteps := maxSteps_pos_of_validate h
      obtain ⟨doc, hdoc, step, hstep, hmain⟩ := Workspace.exists_compile_loneAction a hpos
      have := (Workspace.finiteHooks_iff hdoc hstep).1.mp (hall _ doc hdoc step hstep)
      rwa [hmain] at this
    · intro hbundles ws doc hdoc step hstep
      obtain ⟨⟨a, hmain⟩, -⟩ := Workspace.hooks_of_compileFrom hdoc step hstep
      refine (Workspace.finiteHooks_iff hdoc hstep).1.mpr ?_
      rw [hmain]
      exact hbundles a
  refine ⟨hfinite, Iff.trans ?_ hfinite⟩
  exact forall_congr' fun ws => forall_congr' fun doc => forall_congr' fun hdoc =>
    forall_congr' fun step => forall_congr' fun hstep => (Workspace.finiteHooks_iff hdoc hstep).2

/-- Settings under which every wait is announced for a number of seconds. -/
def announced (seconds : Float) : Settings where
  hooks := .ofList [("wait_time",
    { pre := ["announce"], preParams := .ofList [("seconds", .number seconds)] })]

set_option maxRecDepth 5000 in
/-- With a finite number of seconds, no document has a `null` in it. -/
theorem withoutNull_of_announced :
    (announced 3).validate = .ok () ∧
      ∀ (ws : Workspace) (doc : Document), ws.compile (announced 3).options = .ok doc →
        ∀ step ∈ doc.steps, step.WithoutNull := by
  have hvalid : (announced 3).validate = .ok () := by decide +kernel
  refine ⟨hvalid, (finiteHooks_iff_of_validate hvalid).2.mpr fun a => ⟨?_, ?_⟩⟩
  · cases a <;> decide +kernel
  · cases a <;> decide +kernel

/-- A settings file whose hooks have a parameter that is no number. -/
def announceText : String :=
  "[hooks.wait_time]\npre = [\"announce\"]\npre_params = \x7b seconds = nan \x7d\n"

/-- What a single wait becomes under `announceText`. -/
def announcedWait : Document :=
  ⟨[{ id := "a", stepName := "Wait Time", mainFunc := "wait_time",
      mainParams := .ofList [("seconds", .number 1)], preFuncs := ["announce"],
      preParams := .ofList [("seconds", .number (0 / 0))] }]⟩

set_option maxRecDepth 5000 in
theorem nan_of_announced :
    load (some announceText) [] = .ok (announced (0 / 0)) ∧ (announced (0 / 0)).validate = .ok () ∧
      (Workspace.loneAction .waitTime).compile (announced (0 / 0)).options = .ok announcedWait ∧
      ¬ (∀ step ∈ announcedWait.steps, step.FiniteHooks) ∧
      ¬ (∀ step ∈ announcedWait.steps, step.WithoutNull) := by
  have hcompile : (Workspace.loneAction .waitTime).compile (announced (0 / 0)).options =
      .ok announcedWait := by
    decide +kernel
  have hnan : ¬ (∀ step ∈ announcedWait.steps, step.FiniteHooks) := by decide +kernel
  refine ⟨by decide +kernel, by decide +kernel, hcompile, hnan, fun hall => hnan ?_⟩
  exact fun step hstep => (Workspace.finiteHooks_iff hcompile hstep).2.mp (hall step hstep)

end Settings

end BlockSteps

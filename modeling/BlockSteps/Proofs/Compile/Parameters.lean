import Mathlib
import BlockSteps.Proofs.Decimal.Rounding
import BlockSteps.Proofs.Compile.Sources

/-!
# What may become a parameter

A step hands values to the execution engine, and the engine takes them as they are.  So a number
that is none, or an infinite one, must not get there, however it came about: as a literal, spelled
by a text, named as a constant, computed by any operation, or rounded.

**Where numbers are stopped.**  A number that is attached to a slot is looked at again when it is
taken from there (`finiteCount_of_numberInputBy`), and a field is looked at when it is read.  What
that leaves open is a number that is attached where a text is wanted.  It is finite because every
value is (`isFinite_of_value`), of which rounding is the only case without a check of its own.

**Main statement.**  `fitsAction_of_compileFrom`: whatever heads a program has and whatever its
blocks hold, every step of its document is that of an action block, carries the names and the
parameters of this action and no others, and has finite numbers and a text for its channel.
-/

namespace BlockSteps

/-! ## Values are finite -/

theorem FiniteCount.isFinite_getD {count : Option Float} {default : Float} (h : FiniteCount count)
    (hdefault : default.isFinite = true) : (count.getD default).isFinite = true := by
  cases count with
  | none => exact hdefault
  | some x => exact h x rfl

/-- Every way of rounding keeps a number finite. -/
theorem isFinite_of_rounding? {name : String} {f : Float → Float} {x : Float}
    (h : rounding? name = some f) (hx : x.isFinite = true) : (f x).isFinite = true := by
  unfold rounding? at h
  split at h
  · cases h
    exact Decimal.isFinite_nearest hx
  · cases h
    exact Decimal.isFinite_ceiling hx
  · cases h
    exact Decimal.isFinite_floor hx
  · cases h

theorem Block.operation_eq_ok {α : Type} {b : Block} {field default : String}
    {byName : String → Option α} {f : α} (h : b.operation field byName default = .ok f) :
    byName (b.textField field default) = some f := by
  unfold operation at h
  dsimp only at h
  split at h
  · rename_i g hg
    cases h
    exact hg
  · cases h

/-- The value of an expression is finite if the numbers attached to it are. -/
theorem Expression.isFinite_of_evaluate {number : String → Except Failure (Option Float)}
    (hnumber : ∀ slot count, number slot = .ok count → FiniteCount count) {b : Block}
    {e : Expression} {x : Float} (h : e.evaluate number b = .ok (.number x)) :
    x.isFinite = true := by
  have hzero : (0 : Float).isFinite = true := rfl
  cases e with
  | number =>
    obtain ⟨n, hn, h⟩ := bind_eq_ok_iff.mp h
    cases h
    exact (Block.finiteCount_of_numberField (checked_eq_ok_iff.mp hn)).isFinite_getD hzero
  | constant =>
    obtain ⟨c, -, h⟩ := bind_eq_ok_iff.mp h
    obtain ⟨y, hy, h⟩ := bind_eq_ok_iff.mp h
    cases h
    obtain ⟨hfinite, rfl⟩ := Block.finite_eq_ok_iff.mp (checked_eq_ok_iff.mp hy)
    exact hfinite
  | arithmetic =>
    obtain ⟨m, -, h⟩ := bind_eq_ok_iff.mp h
    obtain ⟨n, -, h⟩ := bind_eq_ok_iff.mp h
    obtain ⟨f, -, h⟩ := bind_eq_ok_iff.mp h
    obtain ⟨y, hy, h⟩ := bind_eq_ok_iff.mp h
    cases h
    obtain ⟨hfinite, rfl⟩ := Block.finite_eq_ok_iff.mp (checked_eq_ok_iff.mp hy)
    exact hfinite
  | single =>
    obtain ⟨n, -, h⟩ := bind_eq_ok_iff.mp h
    obtain ⟨f, -, h⟩ := bind_eq_ok_iff.mp h
    obtain ⟨y, hy, h⟩ := bind_eq_ok_iff.mp h
    cases h
    obtain ⟨hfinite, rfl⟩ := Block.finite_eq_ok_iff.mp (checked_eq_ok_iff.mp hy)
    exact hfinite
  | round =>
    obtain ⟨n, hn, h⟩ := bind_eq_ok_iff.mp h
    obtain ⟨f, hf, h⟩ := bind_eq_ok_iff.mp h
    cases h
    have hrounding := Block.operation_eq_ok (checked_eq_ok_iff.mp hf)
    exact isFinite_of_rounding? hrounding ((hnumber "NUM" n hn).isFinite_getD hzero)
  | text => cases h

namespace Workspace

variable {ws : Workspace} {b : Block}

/-- A value that is a number is a finite one, whatever it was computed from. -/
theorem isFinite_of_value {x : Float} (h : ws.value b = .ok (.number x)) : x.isFinite = true := by
  unfold value valueWithin at h
  obtain ⟨k, -, h⟩ := bind_eq_ok_iff.mp h
  cases k with
  | expression e => exact e.isFinite_of_evaluate (fun _ _ => finiteCount_of_numberInputBy) h
  | action a => cases h
  | loop l => cases h

theorem isFinite_of_numberParam {slot : String} {default x : Float}
    (hdefault : default.isFinite = true) (h : ws.numberParam b slot default = .ok x) :
    x.isFinite = true := by
  obtain ⟨attached, hattached, h⟩ := bind_eq_ok_iff.mp h
  cases attached with
  | some y =>
    cases h
    exact finiteCount_of_numberInputBy hattached x rfl
  | none =>
    obtain ⟨field, hfield, h⟩ := bind_eq_ok_iff.mp h
    cases h
    have hfinite := Block.finiteCount_of_numberField (checked_eq_ok_iff.mp hfield)
    exact hfinite.isFinite_getD hdefault

end Workspace

/-! ## Parameters of an action -/

/-- The names of the parameters of the main function, in order. -/
def Action.paramNames : Action → List String
  | .setLaserPower => ["channel", "power"]
  | .waitTime => ["seconds"]
  | .acquireFrame => ["channel"]
  | .moveStage => ["x", "y", "z"]

/-- A value that may stand under the name: a text for the channel and a finite number for every
other parameter. -/
def Scalar.SuitsName (name : String) (v : Scalar) : Prop :=
  if name = "channel" then ∃ t, v = .text t else ∃ x, v = .number x ∧ x.isFinite = true

/-- A channel is never a number, and the other parameters are never texts. -/
theorem Scalar.suitsName_number {name : String} {x : Float} (hname : name ≠ "channel")
    (hx : x.isFinite = true) : (Scalar.number x).SuitsName name := by
  rw [SuitsName, if_neg hname]
  exact ⟨x, rfl, hx⟩

theorem Scalar.suitsName_text (t : String) : (Scalar.text t).SuitsName "channel" :=
  ⟨t, rfl⟩

/-- The parameters that are read for an action have its names, each once, and suit them. -/
theorem Action.params_eq_ok {ws : Workspace} {b : Block} {a : Action}
    {params : List (String × Scalar)} (h : a.params ws b = .ok params) :
    (Dict.ofList params).names = a.paramNames ∧ ∀ p ∈ params, p.2.SuitsName p.1 := by
  have hnumber : ∀ {slot : String} {default x : Float}, default.isFinite = true →
      ws.numberParam b slot default = .ok x → x.isFinite = true := fun hdefault hx =>
    Workspace.isFinite_of_numberParam hdefault hx
  cases a with
  | setLaserPower =>
    obtain ⟨power, hpower, h⟩ := bind_eq_ok_iff.mp h
    obtain ⟨channel, -, h⟩ := bind_eq_ok_iff.mp h
    cases h
    refine ⟨?_, ?_⟩
    · -- The names do not depend on the values, and without these the dictionary is closed.
      rw [← Dict.names_ofList_map fun _ => ()]
      simp only [List.map_cons, List.map_nil]
      decide
    · simp only [List.forall_mem_cons]
      exact ⟨Scalar.suitsName_number (by decide) (hnumber rfl hpower),
        Scalar.suitsName_text channel, nofun⟩
  | waitTime =>
    obtain ⟨seconds, hseconds, h⟩ := bind_eq_ok_iff.mp h
    cases h
    refine ⟨rfl, ?_⟩
    simp only [List.forall_mem_cons]
    exact ⟨Scalar.suitsName_number (by decide) (hnumber rfl hseconds), nofun⟩
  | acquireFrame =>
    obtain ⟨channel, -, h⟩ := bind_eq_ok_iff.mp h
    cases h
    refine ⟨rfl, ?_⟩
    simp only [List.forall_mem_cons]
    exact ⟨Scalar.suitsName_text channel, nofun⟩
  | moveStage =>
    obtain ⟨x, hx, h⟩ := bind_eq_ok_iff.mp h
    obtain ⟨y, hy, h⟩ := bind_eq_ok_iff.mp h
    obtain ⟨z, hz, h⟩ := bind_eq_ok_iff.mp h
    cases h
    refine ⟨?_, ?_⟩
    · rw [← Dict.names_ofList_map fun _ => ()]
      simp only [List.map_cons, List.map_nil]
      decide
    · simp only [List.forall_mem_cons]
      exact ⟨Scalar.suitsName_number (by decide) (hnumber rfl hx),
        Scalar.suitsName_number (by decide) (hnumber rfl hy),
        Scalar.suitsName_number (by decide) (hnumber rfl hz), nofun⟩

/-- A step that carries the names of an action, its parameters, and a suitable value for each. -/
structure Step.FitsAction (s : Step) (a : Action) : Prop where
  /-- The name shown to people. -/
  stepName : s.stepName = a.stepName
  /-- The main function. -/
  mainFunc : s.mainFunc = a.mainFunc
  /-- Exactly the parameters of the action. -/
  names : s.mainParams.names = a.paramNames
  /-- The channel is a text and every other parameter a finite number. -/
  values : ∀ p ∈ s.mainParams.entries, p.2.SuitsName p.1

theorem Action.fitsAction_of_step {ws : Workspace} {hooks : HookTable} {b : Block} {a : Action}
    {s : Step} (h : a.step ws hooks b = .ok s) : s.FitsAction a := by
  obtain ⟨params, hparams, rfl⟩ := Action.step_eq_ok_iff.mp h
  obtain ⟨hnames, hsuits⟩ := Action.params_eq_ok hparams
  obtain ⟨-, hstepName, hmainFunc, -⟩ := a.bare_eq hooks b
  exact ⟨hstepName, hmainFunc, hnames, fun p hp => hsuits p (Dict.mem_entries_ofList hp)⟩

namespace Workspace

variable {ws : Workspace}

/-- Writing the id and entering loops leave a step as it fits. -/
theorem exists_action_of_makes {hooks : HookTable} {b : Block} {s : Step}
    (h : ws.Makes hooks b s) : ∃ a, b.kind = .ok (.action a) ∧ s.FitsAction a := by
  obtain ⟨a, t, hkind, ht, hs⟩ := h
  have hfits := a.fitsAction_of_step ht
  refine ⟨a, hkind, ?_⟩
  rw [hs]
  exact ⟨hfits.stepName, hfits.mainFunc, hfits.names, hfits.values⟩

/-- **Every step of a document is well formed.**  For every graph, every list of heads and all
options, a step of the document is what an action block of the graph is made into, but for its path
and the path that may be written behind its id; it has the names and exactly the parameters of this
action, a text for its channel and a finite number for each other parameter.  And no value is a
number that is not finite, so none is written into the text of a channel. -/
theorem fitsAction_of_compileFrom {heads : List BlockId} {opts : Options} {doc : Document}
    (h : ws.compileFrom heads opts = .ok doc) :
    (∀ s ∈ doc.steps, ∃ b ∈ ws.blocks, ∃ a, b.kind = .ok (.action a) ∧
      ws.WrittenFrom opts b s ∧ s.FitsAction a) ∧
    ∀ b x, ws.value b = .ok (.number x) → x.isFinite = true := by
  refine ⟨fun s hs => ?_, fun b x => isFinite_of_value⟩
  obtain ⟨steps, hsteps, rfl⟩ := compileFrom_eq_ok h
  obtain ⟨chains, hchains, rfl⟩ := headMeans_of_chainsOutcome hsteps
  obtain ⟨t, ht, rfl⟩ := List.mem_map.mp hs
  obtain ⟨b, hb, hmakes⟩ := exists_makes_of_program hchains t ht
  obtain ⟨a, hkind, hfits⟩ := exists_action_of_makes hmakes
  exact ⟨b, hb, a, hkind, hmakes.writtenFrom,
    ⟨hfits.stepName, hfits.mainFunc, hfits.names, hfits.values⟩⟩

/-- A laser whose power is a text, rounded, and whose channel is a number. -/
def roundedPower : Workspace where
  blocks := #[
    { id := "p", type := "set_laser_power_block",
      values := .ofList [("CHANNEL", "c"), ("POWER", "r")] },
    { id := "r", type := "math_round", values := .ofList [("NUM", "t")] },
    { id := "t", type := "text", fields := .ofList [("TEXT", .text " 49.5 ")] },
    { id := "c", type := "math_number", fields := .ofList [("NUM", .number 2.5)] }]

/-- The document of `roundedPower`. -/
def roundedPowerDocument : Document :=
  ⟨[{ id := "p", stepName := "Set Laser Power", mainFunc := "set_laser_power",
      mainParams := .ofList [("channel", .text "2.5"), ("power", .number 50)] }]⟩

theorem fitsAction_roundedPower :
    roundedPower.compileFrom ["p"] {} = .ok roundedPowerDocument ∧
      (∀ s ∈ roundedPowerDocument.steps, ∃ b ∈ roundedPower.blocks, ∃ a,
        b.kind = .ok (.action a) ∧ roundedPower.WrittenFrom {} b s ∧ s.FitsAction a) ∧
      ∀ b x, roundedPower.value b = .ok (.number x) → x.isFinite = true :=
  have h : roundedPower.compileFrom ["p"] {} = .ok roundedPowerDocument := by decide +kernel
  ⟨h, fitsAction_of_compileFrom h⟩

end Workspace

end BlockSteps

import Mathlib
import BlockSteps.Proofs.Compile.Sources

/-!
# Steps are built in any order

A step is built by giving its main function parameters and by adding bundles of hooks, in any number
and order.  The two kinds of changes go to different places: parameters to one dictionary, bundles
to two lists and two other dictionaries.  So the step does not depend on how the two kinds are
mixed, only on the parameters in their order and on the bundles in theirs.

`Amended` says what the step is, place by place.  The lists of functions grow; in each dictionary
the last value under a name stays (`Overlays`).  One change of either kind adds to what it says
(`Amended.withParam`, `Amended.withHooks`), hence so does every run of changes (`Amended.amendAll`);
and it leaves nothing open (`Amended.unique`), because a dictionary is determined by its look-ups.

**Main statement.**  `amendAll_amended`: the step that is built is the amended one, whatever the
order of the two kinds; and of two bundles in a row one can be made (`Hooks.followedBy`).

The compiler amends in the same sense.  The step of an action is the bare step with the parameters
that were read and the bundle of its main function (`Action.amended_of_step`).  Entering a loop and
writing the id do not come between (`Amended.writtenAt`), so this holds of every step of a document
(`exists_amended_of_compileFrom`).
-/

namespace BlockSteps

/-- Two bundles as one: the functions of the second behind those of the first, its parameters over
them. -/
def Hooks.followedBy (h k : Hooks) : Hooks where
  pre := h.pre ++ k.pre
  preParams := h.preParams.override k.preParams
  post := h.post ++ k.post
  postParams := h.postParams.override k.postParams

namespace Step

/-- The parameter that a change gives. -/
def Amendment.param? : Amendment → Option (String × Scalar)
  | .param name value => some (name, value)
  | .hooks _ => none

/-- The bundle that a change adds. -/
def Amendment.bundle? : Amendment → Option Hooks
  | .param _ _ => none
  | .hooks h => some h

/-- The parameters that changes give, in order. -/
def paramsOf (changes : List Amendment) : List (String × Scalar) :=
  changes.filterMap Amendment.param?

/-- The bundles that changes add, in order. -/
def bundlesOf (changes : List Amendment) : List Hooks := changes.filterMap Amendment.bundle?

@[simp] theorem paramsOf_nil : paramsOf [] = [] := rfl

@[simp] theorem paramsOf_param (name : String) (value : Scalar) (rest : List Amendment) :
    paramsOf (.param name value :: rest) = (name, value) :: paramsOf rest := rfl

@[simp] theorem paramsOf_hooks (h : Hooks) (rest : List Amendment) :
    paramsOf (.hooks h :: rest) = paramsOf rest := rfl

theorem paramsOf_map_param (params : List (String × Scalar)) :
    paramsOf (params.map fun p => .param p.1 p.2) = params := by
  induction params with
  | nil => rfl
  | cons p rest ih => rw [List.map_cons, paramsOf_param, ih]

@[simp] theorem bundlesOf_nil : bundlesOf [] = [] := rfl

@[simp] theorem bundlesOf_param (name : String) (value : Scalar) (rest : List Amendment) :
    bundlesOf (.param name value :: rest) = bundlesOf rest := rfl

@[simp] theorem bundlesOf_hooks (h : Hooks) (rest : List Amendment) :
    bundlesOf (.hooks h :: rest) = h :: bundlesOf rest := rfl

theorem bundlesOf_map_param (params : List (String × Scalar)) :
    bundlesOf (params.map fun p => .param p.1 p.2) = [] := by
  induction params with
  | nil => rfl
  | cons p rest ih => rw [List.map_cons, bundlesOf_param, ih]

/-! ## What is said last -/

section LastValue

variable {α : Type}

/-- The value of the last member of a list that has one. -/
def lastValue? (given : α → Option Scalar) (l : List α) : Option Scalar :=
  l.reverse.findSome? given

variable (given : α → Option Scalar)

theorem lastValue?_append (xs ys : List α) :
    lastValue? given (xs ++ ys) = (lastValue? given ys).or (lastValue? given xs) := by
  rw [lastValue?, List.reverse_append, List.findSome?_append]
  rfl

theorem lastValue?_singleton (x : α) : lastValue? given [x] = given x := by
  simp [lastValue?]

theorem lastValue?_cons (x : α) (xs : List α) :
    lastValue? given (x :: xs) = (lastValue? given xs).or (given x) := by
  rw [← List.singleton_append, lastValue?_append, lastValue?_singleton]

/-- The member that decides has a value, and no later one has. -/
theorem lastValue?_eq_some_iff {l : List α} {value : Scalar} :
    lastValue? given l = some value ↔
      ∃ before x after, l = before ++ x :: after ∧ given x = some value ∧
        ∀ y ∈ after, given y = none := by
  rw [lastValue?, List.findSome?_eq_some_iff]
  constructor
  · rintro ⟨after, x, before, hl, hx, hafter⟩
    refine ⟨before.reverse, x, after.reverse, ?_, hx, fun y hy => hafter y (List.mem_reverse.mp hy)⟩
    rw [← List.reverse_reverse l, hl]
    simp
  · rintro ⟨before, x, after, rfl, hx, hafter⟩
    exact ⟨after.reverse, x, before.reverse, by simp, hx,
      fun y hy => hafter y (List.mem_reverse.mp hy)⟩

end LastValue

/-! ## Values over values -/

/-- Under each name `e` has the value of the last member of the list that gives it one, and the
value of `d` if none does. -/
def Overlays {α : Type} (given : String → α → Option Scalar) (l : List α) (d e : Params) : Prop :=
  ∀ name, e.get? name = (lastValue? (given name) l).or (d.get? name)

namespace Overlays

variable {α : Type} {given : String → α → Option Scalar} {l : List α} {d e e' : Params}

theorem nil (d : Params) : Overlays given [] d d := fun _ => rfl

/-- A dictionary is determined by its look-ups. -/
theorem unique (h : Overlays given l d e) (h' : Overlays given l d e') : e = e' :=
  Dict.ext fun name => (h name).trans (h' name).symm

theorem concat (h : Overlays given l d e) {x : α}
    (hx : ∀ name, e'.get? name = (given name x).or (e.get? name)) :
    Overlays given (l ++ [x]) d e' := by
  intro name
  rw [hx, h name, lastValue?_append, lastValue?_singleton, Option.or_assoc]

/-- One member can stand for two in a row if it gives what they give, the second asked first. -/
theorem merge {before after : List α} {x y z : α}
    (h : Overlays given (before ++ x :: y :: after) d e)
    (hz : ∀ name, given name z = (given name y).or (given name x)) :
    Overlays given (before ++ z :: after) d e := by
  intro name
  rw [h name]
  simp only [lastValue?_append, lastValue?_cons, hz, Option.or_assoc]

end Overlays

/-- The value that a parameter gives to a name: its own, under its own name. -/
def valueUnder? (name : String) (p : String × Scalar) : Option Scalar :=
  if name = p.1 then some p.2 else none

theorem get?_insert_eq_or (d : Params) (p : String × Scalar) (name : String) :
    (d.insert p.1 p.2).get? name = (valueUnder? name p).or (d.get? name) := by
  rw [Dict.get?_insert, valueUnder?]
  split
  · rfl
  · rfl

/-! ## Amended steps -/

/-- The step `t` is the step `s` with parameters given and bundles added, each in their order. -/
structure Amended (s : Step) (params : List (String × Scalar)) (bundles : List Hooks) (t : Step) :
    Prop where
  /-- The id is untouched. -/
  id_eq : t.id = s.id
  /-- The name is untouched. -/
  stepName_eq : t.stepName = s.stepName
  /-- The main function is untouched. -/
  mainFunc_eq : t.mainFunc = s.mainFunc
  /-- The iteration path is untouched. -/
  iteration_eq : t.iteration = s.iteration
  /-- A parameter of the main function has the value that was given last. -/
  mainParams : Overlays valueUnder? params s.mainParams t.mainParams
  /-- The functions before are those of all bundles, in order. -/
  preFuncs_eq : t.preFuncs = s.preFuncs ++ bundles.flatMap Hooks.pre
  /-- A parameter of those has the value of the last bundle that has one. -/
  preParams : Overlays (fun name h => h.preParams.get? name) bundles s.preParams t.preParams
  /-- The functions after are those of all bundles, in order. -/
  postFuncs_eq : t.postFuncs = s.postFuncs ++ bundles.flatMap Hooks.post
  /-- A parameter of those has the value of the last bundle that has one. -/
  postParams : Overlays (fun name h => h.postParams.get? name) bundles s.postParams t.postParams

namespace Amended

variable {s t u : Step} {params : List (String × Scalar)} {bundles : List Hooks}

theorem refl (s : Step) : Amended s [] [] s where
  id_eq := rfl
  stepName_eq := rfl
  mainFunc_eq := rfl
  iteration_eq := rfl
  mainParams := .nil _
  preFuncs_eq := (List.append_nil _).symm
  preParams := .nil _
  postFuncs_eq := (List.append_nil _).symm
  postParams := .nil _

/-- Nothing is left open. -/
theorem unique (ht : Amended s params bundles t) (hu : Amended s params bundles u) : t = u := by
  have hmain := ht.mainParams.unique hu.mainParams
  have hpre := ht.preParams.unique hu.preParams
  have hpost := ht.postParams.unique hu.postParams
  cases t
  cases u
  rw [Step.mk.injEq]
  exact ⟨ht.id_eq.trans hu.id_eq.symm, ht.stepName_eq.trans hu.stepName_eq.symm,
    ht.mainFunc_eq.trans hu.mainFunc_eq.symm, hmain, ht.preFuncs_eq.trans hu.preFuncs_eq.symm,
    hpre, ht.postFuncs_eq.trans hu.postFuncs_eq.symm, hpost,
    ht.iteration_eq.trans hu.iteration_eq.symm⟩

/-! ### One change

Each kind of change leaves the places of the other kind alone, so only its own are proved again. -/

theorem withParam (h : Amended s params bundles t) (name : String) (value : Scalar) :
    Amended s (params ++ [(name, value)]) bundles (t.withParam name value) where
  __ := h
  mainParams := h.mainParams.concat (get?_insert_eq_or t.mainParams (name, value))

theorem withHooks (h : Amended s params bundles t) (added : Hooks) :
    Amended s params (bundles ++ [added]) (t.withHooks added) where
  __ := h
  preFuncs_eq := by
    rw [Step.withHooks, h.preFuncs_eq, List.flatMap_append, List.append_assoc,
      List.flatMap_singleton]
  preParams := h.preParams.concat (Dict.get?_override t.preParams added.preParams)
  postFuncs_eq := by
    rw [Step.withHooks, h.postFuncs_eq, List.flatMap_append, List.append_assoc,
      List.flatMap_singleton]
  postParams := h.postParams.concat (Dict.get?_override t.postParams added.postParams)

/-! ### All changes -/

/-- Changes add their parameters and their bundles to what there was. -/
theorem amendAll (changes : List Amendment) (h : Amended s params bundles t) :
    Amended s (params ++ paramsOf changes) (bundles ++ bundlesOf changes) (t.amendAll changes) := by
  -- The changes are made from the front, so what was taken before grows on the way.
  induction changes generalizing t params bundles with
  | nil =>
    rw [paramsOf_nil, bundlesOf_nil, List.append_nil, List.append_nil]
    exact h
  | cons change rest ih =>
    cases change with
    | param name value =>
      rw [paramsOf_param, bundlesOf_param, List.append_cons]
      exact ih (h.withParam name value)
    | hooks added =>
      rw [paramsOf_hooks, bundlesOf_hooks, List.append_cons]
      exact ih (h.withHooks added)

/-- Two bundles in a row do what one does. -/
theorem followedBy {before after : List Hooks} {h k : Hooks}
    (ht : Amended s params (before ++ h :: k :: after) t) :
    Amended s params (before ++ h.followedBy k :: after) t where
  __ := ht
  preFuncs_eq := by
    rw [ht.preFuncs_eq]
    simp [Hooks.followedBy]
  preParams := ht.preParams.merge (Dict.get?_override h.preParams k.preParams)
  postFuncs_eq := by
    rw [ht.postFuncs_eq]
    simp [Hooks.followedBy]
  postParams := ht.postParams.merge (Dict.get?_override h.postParams k.postParams)

end Amended

/-- **A step is built from its parameters and its bundles, however they are mixed.**  For every step
and all changes: the last value stays under each name of a main parameter, the functions are those
of the bundles one behind the other, the last bundle with a value decides on each other parameter,
and all else is untouched.  Changes with the same parameters in the same order and the same bundles
in the same order make the same step.  Two bundles in a row, with whatever parameters between them,
can be made one. -/
theorem amendAll_amended (s : Step) (changes : List Amendment) :
    Amended s (paramsOf changes) (bundlesOf changes) (s.amendAll changes) ∧
    (∀ others, paramsOf others = paramsOf changes → bundlesOf others = bundlesOf changes →
      s.amendAll others = s.amendAll changes) ∧
    (∀ h k, (s.withHooks h).withHooks k = s.withHooks (h.followedBy k)) ∧
    ∀ before h k after others, bundlesOf changes = before ++ h :: k :: after →
      bundlesOf others = before ++ h.followedBy k :: after → paramsOf others = paramsOf changes →
        s.amendAll others = s.amendAll changes := by
  have hall : ∀ changes,
      Amended s (paramsOf changes) (bundlesOf changes) (s.amendAll changes) :=
    fun changes => (Amended.refl s).amendAll changes
  refine ⟨hall changes, fun others hparams hbundles => ?_, fun h k => ?_,
    fun before h k after others htwo hone hparams => ?_⟩
  · have hothers := hall others
    rw [hparams, hbundles] at hothers
    exact hothers.unique (hall changes)
  · have htwo : Amended s [] ([] ++ h :: k :: []) ((s.withHooks h).withHooks k) :=
      ((Amended.refl s).withHooks h).withHooks k
    exact htwo.followedBy.unique ((Amended.refl s).withHooks (h.followedBy k))
  · have hchanges := hall changes
    have hothers := hall others
    rw [htwo] at hchanges
    rw [hone, hparams] at hothers
    exact hothers.unique hchanges.followedBy

/-- A bundle that sets a lamp before the main function. -/
def lampAt (level : String) : Hooks :=
  { pre := ["set_lamp"], preParams := .ofList [("level", .text level)] }

/-- A channel is given twice and a lamp is set twice, in turns. -/
def lampChanges : List Amendment :=
  [.param "channel" (.text "LED"), .hooks (lampAt "low"), .param "channel" (.text "488nm"),
    .hooks (lampAt "high")]

/-- A step that is not amended yet. -/
def frame : Step := { id := "f", stepName := "Acquire Frame", mainFunc := "acquire_frame" }

/-- Sorted by kind, or with one bundle for the two, `lampChanges` make the same step, in which the
lamp is set twice and what came last stays. -/
theorem amendAll_amended_lampChanges :
    frame.amendAll [.hooks (lampAt "low"), .hooks (lampAt "high"),
        .param "channel" (.text "LED"), .param "channel" (.text "488nm")] =
      frame.amendAll lampChanges ∧
    frame.amendAll [.param "channel" (.text "LED"), .param "channel" (.text "488nm"),
        .hooks ((lampAt "low").followedBy (lampAt "high"))] = frame.amendAll lampChanges ∧
    (frame.amendAll lampChanges).mainParams.get? "channel" = some (.text "488nm") ∧
    (frame.amendAll lampChanges).preFuncs = ["set_lamp", "set_lamp"] ∧
    (frame.amendAll lampChanges).preParams.get? "level" = some (.text "high") := by
  obtain ⟨hamended, hmixed, -, hone⟩ := amendAll_amended frame lampChanges
  refine ⟨hmixed _ rfl rfl, hone [] (lampAt "low") (lampAt "high") [] _ rfl rfl rfl, ?_,
    hamended.preFuncs_eq, ?_⟩
  · have hlast : lastValue? (valueUnder? "channel") (paramsOf lampChanges) =
        some (.text "488nm") :=
      (lastValue?_eq_some_iff _).mpr ⟨[("channel", .text "LED")], _, [], rfl, rfl, nofun⟩
    rw [hamended.mainParams, hlast, Option.some_or]
  · have hlast : lastValue? (·.preParams.get? "level") (bundlesOf lampChanges) =
        some (.text "high") :=
      (lastValue?_eq_some_iff _).mpr ⟨[lampAt "low"], _, [], rfl, by decide, nofun⟩
    rw [hamended.preParams, hlast, Option.some_or]

end Step

/-- The step of an action has the names of the action, the parameters that were read, and the bundle
that the hook table has for its main function, if it has one. -/
theorem Action.amended_of_step {ws : Workspace} {hooks : HookTable} {b : Block} {a : Action}
    {s : Step} (h : a.step ws hooks b = .ok s) :
    ∃ params, a.params ws b = .ok params ∧
      Step.Amended { id := b.id, stepName := a.stepName, mainFunc := a.mainFunc } params
        (hooks.get? a.mainFunc).toList s := by
  obtain ⟨params, hparams, h⟩ := bind_eq_ok_iff.mp h
  cases h
  have hbare : Step.Amended { id := b.id, stepName := a.stepName, mainFunc := a.mainFunc } []
      (hooks.get? a.mainFunc).toList (a.bare hooks b) := by
    unfold bare
    cases hooks.get? a.mainFunc with
    | none => exact .refl _
    | some bundle => exact (Step.Amended.refl _).withHooks bundle
  have hstep := hbare.amendAll (params.map fun p => .param p.1 p.2)
  rw [Step.paramsOf_map_param, Step.bundlesOf_map_param, List.append_nil] at hstep
  exact ⟨params, hparams, hstep⟩

/-- The iteration path and the written id are no part of what amendments change. -/
theorem Step.Amended.writtenAt {s t : Step} {params : List (String × Scalar)} {bundles : List Hooks}
    (h : Step.Amended s params bundles t) (path : List Nat) (policy : IdPolicy) :
    Step.Amended ({ s with iteration := path }.rendered policy) params bundles
      ({ t with iteration := path }.rendered policy) where
  id_eq := by
    simp only [Step.rendered, Step.renderedId, h.id_eq]
  stepName_eq := h.stepName_eq
  mainFunc_eq := h.mainFunc_eq
  iteration_eq := rfl
  mainParams := h.mainParams
  preFuncs_eq := h.preFuncs_eq
  preParams := h.preParams
  postFuncs_eq := h.postFuncs_eq
  postParams := h.postParams

/-- Every step of a document is a bare step with names, a path and a written id only, amended by the
parameters that its block gives and by the bundle that the hook table has for its main function. -/
theorem Workspace.exists_amended_of_compileFrom {ws : Workspace} {heads : List BlockId}
    {opts : Options} {doc : Document} (h : ws.compileFrom heads opts = .ok doc) :
    ∀ s ∈ doc.steps, ∃ b ∈ ws.blocks, ∃ a params,
      b.kind = .ok (.action a) ∧ a.params ws b = .ok params ∧
        Step.Amended
          (Step.rendered opts.ids
            { id := b.id, stepName := a.stepName, mainFunc := a.mainFunc,
              iteration := s.iteration })
          params (opts.hooks.get? a.mainFunc).toList s := by
  obtain ⟨steps, hsteps, rfl⟩ := compileFrom_eq_ok h
  obtain ⟨chains, hchains, rfl⟩ := headMeans_of_chainsOutcome hsteps
  intro s hs
  obtain ⟨t, ht, rfl⟩ := List.mem_map.mp hs
  obtain ⟨b, hb, a, u, hkind, hu, htu⟩ := exists_makes_of_program hchains t ht
  obtain ⟨params, hparams, hamended⟩ := a.amended_of_step hu
  refine ⟨b, hb, a, params, hkind, hparams, ?_⟩
  rw [htu]
  exact hamended.writtenAt t.iteration opts.ids

end BlockSteps

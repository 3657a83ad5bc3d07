import Mathlib
import BlockSteps.Proofs.Compile.Outcome

/-!
# What a chain means

The compiler runs with bounds, counts what it has so far and checks the limit on the way.  The
**meaning** of a chain knows nothing of this.  It is said by two relations on the graph, one rule
for each way in which a block can stand in a chain:

* `BlockMeans`: an action means the one step it is made into, a block with a value means nothing,
  and a loop means the copies of the meaning of its body, none if it has no body or no turns;
* `ChainMeans`: a chain means what its blocks mean, one behind the other.

Both are functional (`BlockMeans.unique`, `ChainMeans.unique`), so it is right to speak of *the*
meaning.

**Main statement.**  `steps_eq_meaning`: a document that was compiled is the meaning of the chains
of the program, in their order, and nothing besides.  Nothing is asked of the graph.  If a circle of
references is in it, then a chain that leads into the circle has no meaning, and the theorem says
that it is not compiled either.

**What a meaning does not say.**  A loop without turns means nothing, whatever its body is.  The
compiler still checks that body, so a program can have a meaning and no document.
-/

namespace BlockSteps.Workspace

/-! ## The relations -/

mutual

/-- The steps that a block means in the chain it stands in. -/
inductive BlockMeans (ws : Workspace) (hooks : HookTable) : Block → List Step → Prop where
  /-- An action means one step. -/
  | action {b : Block} {a : Action} {s : Step} (hkind : b.kind = .ok (.action a))
      (hstep : a.step ws hooks b = .ok s) : BlockMeans ws hooks b [s]
  /-- A block that has a value means nothing. -/
  | value {b : Block} {e : Expression} (hkind : b.kind = .ok (.expression e)) :
      BlockMeans ws hooks b []
  /-- A loop without a body means nothing. -/
  | noBody {b : Block} {l : Loop} (hkind : b.kind = .ok (.loop l))
      (hbody : b.statements.get? Kind.bodySlot = none) : BlockMeans ws hooks b []
  /-- A loop whose count is below one means nothing. -/
  | notRun {b : Block} {l : Loop} {count : Option Float} (hkind : b.kind = .ok (.loop l))
      (hcount : ws.loopCount b l = .ok count) (hturns : turns count < 1) : BlockMeans ws hooks b []
  /-- A loop with `n` turns means `n` copies of its body, the number of the turn put in front of
  the iteration path of each step. -/
  | run {b head : Block} {l : Loop} {count : Option Float} {id : BlockId} {body : List Step}
      (hkind : b.kind = .ok (.loop l)) (hbody : b.statements.get? Kind.bodySlot = some id)
      (hhead : ws.find? id = some head) (hcount : ws.loopCount b l = .ok count)
      (hturns : 1 ≤ turns count) (hmeans : ChainMeans ws hooks head body) :
      BlockMeans ws hooks b ((List.range (turns count)).flatMap fun i =>
        body.map fun s => { s with iteration := i :: s.iteration })

/-- The steps that a chain means. -/
inductive ChainMeans (ws : Workspace) (hooks : HookTable) : Block → List Step → Prop where
  /-- A chain of one block means what the block means. -/
  | last {b : Block} {steps : List Step} (hblock : BlockMeans ws hooks b steps)
      (hnext : b.next = none) : ChainMeans ws hooks b steps
  /-- A longer chain means what its first block means and then what the rest means. -/
  | link {b next : Block} {id : BlockId} {steps rest : List Step}
      (hblock : BlockMeans ws hooks b steps) (hnext : b.next = some id)
      (hfound : ws.find? id = some next) (hrest : ChainMeans ws hooks next rest) :
      ChainMeans ws hooks b (steps ++ rest)

end

/-- The steps that the chain means whose first block has the given id. -/
def HeadMeans (ws : Workspace) (hooks : HookTable) (id : BlockId) (steps : List Step) : Prop :=
  ∃ head, ws.find? id = some head ∧ ws.ChainMeans hooks head steps

variable {ws : Workspace} {hooks : HookTable}

/-! ## A chain has one meaning -/

/-- The kind of a block is one. -/
theorem kind_unique {b : Block} {j k : Kind} (hj : b.kind = .ok j) (hk : b.kind = .ok k) :
    j = k := Except.ok.inj (hj.symm.trans hk)

mutual

theorem BlockMeans.unique {b : Block} {xs ys : List Step} :
    ws.BlockMeans hooks b xs → ws.BlockMeans hooks b ys → xs = ys
  | .action hkind hstep, hy => by
    cases hy with
    | action hkind' hstep' =>
      cases kind_unique hkind hkind'
      cases hstep.symm.trans hstep'
      rfl
    | value hkind' | noBody hkind' | notRun hkind' | run hkind' =>
      cases kind_unique hkind hkind'
  | .value hkind, hy => by
    cases hy with
    | value => rfl
    | action hkind' | noBody hkind' | notRun hkind' | run hkind' =>
      cases kind_unique hkind hkind'
  | .noBody hkind hbody, hy => by
    cases hy with
    | noBody | notRun | value => rfl
    | run _ hbody' => cases hbody.symm.trans hbody'
    | action hkind' => cases kind_unique hkind hkind'
  | .notRun hkind hcount hturns, hy => by
    cases hy with
    | noBody | notRun | value => rfl
    | run hkind' _ _ hcount' hturns' =>
      cases kind_unique hkind hkind'
      cases hcount.symm.trans hcount'
      omega
    | action hkind' => cases kind_unique hkind hkind'
  | .run hkind hbody hhead hcount hturns hmeans, hy => by
    cases hy with
    | run hkind' hbody' hhead' hcount' _ hmeans' =>
      cases kind_unique hkind hkind'
      cases hcount.symm.trans hcount'
      cases hbody.symm.trans hbody'
      obtain rfl := Option.some.inj (hhead.symm.trans hhead')
      rw [ChainMeans.unique hmeans hmeans']
    | notRun hkind' hcount' hturns' =>
      cases kind_unique hkind hkind'
      cases hcount.symm.trans hcount'
      omega
    | noBody _ hbody' => cases hbody.symm.trans hbody'
    | action hkind' | value hkind' => cases kind_unique hkind hkind'

theorem ChainMeans.unique {b : Block} {xs ys : List Step} :
    ws.ChainMeans hooks b xs → ws.ChainMeans hooks b ys → xs = ys
  | .last hblock hnext, hy => by
    cases hy with
    | last hblock' => exact hblock.unique hblock'
    | link _ hnext' => cases hnext.symm.trans hnext'
  | .link hblock hnext hfound hrest, hy => by
    cases hy with
    | last _ hnext' => cases hnext.symm.trans hnext'
    | link hblock' hnext' hfound' hrest' =>
      cases hnext.symm.trans hnext'
      obtain rfl := Option.some.inj (hfound.symm.trans hfound')
      rw [hblock.unique hblock', hrest.unique hrest']

end

theorem HeadMeans.unique {id : BlockId} {xs ys : List Step} (hx : ws.HeadMeans hooks id xs)
    (hy : ws.HeadMeans hooks id ys) : xs = ys := by
  obtain ⟨head, hhead, hx⟩ := hx
  obtain ⟨head', hhead', hy⟩ := hy
  cases hhead.symm.trans hhead'
  exact hx.unique hy

/-- The meanings of several chains are one list. -/
theorem forall₂_headMeans_unique {ids : List BlockId} {xs ys : List (List Step)}
    (hx : List.Forall₂ (ws.HeadMeans hooks) ids xs)
    (hy : List.Forall₂ (ws.HeadMeans hooks) ids ys) : xs = ys := by
  induction hx generalizing ys with
  | nil => cases hy; rfl
  | cons h _ ih =>
    cases hy with
    | cons h' hrest => rw [h.unique h', ih hrest]

/-! ## What is compiled is the meaning -/

variable {opts : Options}

/-- The contribution of a block is its meaning, if the chains of bodies are compiled to theirs. -/
theorem blockMeans_of_contributionOutcome {body : Block → Except Failure (List Step)}
    (hbody : ∀ head steps, body head = .ok steps → ws.ChainMeans opts.hooks head steps)
    {b : Block} {ss : List Step} (h : ws.contributionOutcome opts body b = .ok ss) :
    ws.BlockMeans opts.hooks b ss := by
  obtain ⟨e, hk, rfl⟩ | ⟨a, s, hk, hs, rfl⟩ | ⟨l, count, hk, hcount, h⟩ :=
    contributionOutcome_eq_ok h
  · exact .value hk
  · exact .action hk hs
  · obtain ⟨hnone, rfl⟩ | ⟨id, head, hid, hhead, h⟩ :=
      unrollOutcome_eq_ok (finiteCount_of_loopCount hcount) h
    · exact .noBody hk hnone
    · obtain ⟨hz, -, rfl⟩ | ⟨hz, steps, hsteps, -, rfl⟩ := h
      · exact .notRun hk hcount (by omega)
      · exact .run hk hid hhead hcount (by omega) (hbody head steps hsteps)

/-- The walk along a chain gives its meaning, if the parts of its blocks are theirs. -/
theorem chainMeans_of_walkOutcome {limit : Nat} {part : Block → Except Failure (List Step)}
    (hpart : ∀ b ss, part b = .ok ss → ws.BlockMeans hooks b ss) {bound done : Nat} {b : Block}
    {ss : List Step} (h : ws.walkOutcome limit part bound done b = .ok ss) :
    ws.ChainMeans hooks b ss := by
  induction bound generalizing done b ss with
  | zero => cases h
  | succ bound ih =>
    obtain ⟨more, hmore, -, ⟨hnext, rfl⟩ | ⟨id, next, rest, hnext, hfound, hrest, rfl⟩⟩ :=
      walkOutcome_succ_eq_ok h
    · exact .last (hpart b ss hmore) hnext
    · exact .link (hpart b more hmore) hnext hfound (ih hrest)

/-- The induction is on the depth of bodies: the chains of bodies mean what they should one level
further in. -/
theorem chainMeans_of_chainOutcome {nest : Nat} {head : Block} {ss : List Step}
    (h : ws.chainOutcome opts nest head = .ok ss) : ws.ChainMeans opts.hooks head ss := by
  induction nest generalizing head ss with
  | zero => cases h
  | succ nest ih =>
    exact chainMeans_of_walkOutcome
      (fun b ss => blockMeans_of_contributionOutcome fun head steps => ih) h

theorem headMeans_of_chainsOutcome {done : Nat} {ids : List BlockId} {ss : List Step}
    (h : ws.chainsOutcome opts done ids = .ok ss) :
    ∃ chains, List.Forall₂ (ws.HeadMeans opts.hooks) ids chains ∧ ss = chains.flatten := by
  induction ids generalizing done ss with
  | nil => exact ⟨[], .nil, (Except.ok.inj h).symm⟩
  | cons id rest ih =>
    obtain ⟨head, steps, more, hhead, hsteps, -, hmore, rfl⟩ := chainsOutcome_cons_eq_ok h
    obtain ⟨chains, hchains, rfl⟩ := ih hmore
    exact ⟨steps :: chains, .cons ⟨head, hhead, chainMeans_of_chainOutcome hsteps⟩ hchains, rfl⟩

/-- **A document is the meaning of its program**: the meanings of the chains of the top blocks, one
behind the other, each step with its id written by the policy.  These meanings are the only ones
that the chains have. -/
theorem steps_eq_meaning {doc : Document} (h : ws.compile opts = .ok doc) :
    ∃ chains, List.Forall₂ (ws.HeadMeans opts.hooks) ws.topIds chains ∧
      (∀ others, List.Forall₂ (ws.HeadMeans opts.hooks) ws.topIds others → others = chains) ∧
      doc.steps = chains.flatten.map fun s => { s with id := s.renderedId opts.ids } := by
  obtain ⟨steps, hsteps, rfl⟩ := compileFrom_eq_ok h
  obtain ⟨chains, hchains, rfl⟩ := headMeans_of_chainsOutcome hsteps
  exact ⟨chains, hchains, fun others hothers => forall₂_headMeans_unique hothers hchains, rfl⟩

/-- A program of one chain: a value that stands where only steps count, a loop that is not run, and
two turns of a loop in a loop. -/
def loopInLoop : Workspace where
  blocks := #[
    { id := "n", type := "math_number", next := some "idle" },
    { id := "idle", type := "controls_repeat", statements := .ofList [("DO", "a")],
      next := some "outer" },
    { id := "a", type := "acquire_frame_block" },
    { id := "outer", type := "controls_repeat", fields := .ofList [("TIMES", .text " 2 ")],
      statements := .ofList [("DO", "inner")] },
    { id := "inner", type := "controls_repeat_ext", values := .ofList [("TIMES", "m")],
      statements := .ofList [("DO", "w")] },
    { id := "m", type := "math_number", fields := .ofList [("NUM", .number 2.75)] },
    { id := "w", type := "wait_time_block" }]

/-- The document of `loopInLoop` with numbered copies. -/
def loopInLoopDocument : Document :=
  ⟨[[0, 0], [0, 1], [1, 0], [1, 1]].map fun path =>
    { id := "w#" ++ Step.dotted path, stepName := "Wait Time", mainFunc := "wait_time",
      mainParams := .ofList [("seconds", .number 1)], iteration := path }⟩

theorem steps_eq_meaning_loopInLoop :
    loopInLoop.compile { ids := .indexed } = .ok loopInLoopDocument ∧
    ∃ chains, List.Forall₂ (loopInLoop.HeadMeans {}) loopInLoop.topIds chains ∧
      (∀ others, List.Forall₂ (loopInLoop.HeadMeans {}) loopInLoop.topIds others →
        others = chains) ∧
      loopInLoopDocument.steps =
        chains.flatten.map fun s => { s with id := s.renderedId .indexed } :=
  have h : loopInLoop.compile { ids := .indexed } = .ok loopInLoopDocument := by decide +kernel
  ⟨h, steps_eq_meaning h⟩

end BlockSteps.Workspace

import Mathlib
import BlockSteps.Proofs.Compile.Followed

/-!
# One pass over the program

While it compiles, the compiler reports what it does.  A loop is copied as often as it has turns,
and loops are in loops; but the copies are made of the steps, and the body is looked at once.  The
**pass** says in which order blocks are come to, and what is reported on the way:

* `BlockPass`, one rule for each way in which a block can stand in a chain: an action is not
  reported, a block with a value is, and so is a loop, after everything in its body if that is
  compiled;
* `WalkPass`: along a chain, the blocks one behind the other;
* `ProgramPass`: along the chains of a program, each of which is reported at its end.

**Main statement.**  `exists_programPass`: what a compilation that succeeds reports between its
first and its last event is a pass over the chains of the program.  Nothing is asked of the graph.

As with the meaning of a chain, none of this speaks of bounds, of the steps so far or of the limit.
The numbers of steps in the events are those of the meanings.
-/

namespace BlockSteps

/-- A sequence that succeeds reports what its first part reports and then what its second does. -/
theorem Traced.events_of_bind {ε α β : Type} {x : Traced ε α} {f : α → Traced ε β} {b : β}
    (h : (x >>= f).outcome = .ok b) :
    ∃ a, x.outcome = .ok a ∧ (f a).outcome = .ok b ∧
      (x >>= f).events = x.events ++ (f a).events := by
  rw [outcome_bind] at h
  obtain ⟨a, ha, hb⟩ := bind_eq_ok_iff.mp h
  exact ⟨a, ha, hb, events_bind_ok ha f⟩

namespace Workspace

/-! ## The relations -/

/-- The second block is the first of the body of the first block, a loop that has turns. -/
def Runs (ws : Workspace) (b c : Block) : Prop :=
  ∃ l count, b.kind = .ok (.loop l) ∧ ws.HeadsBody b c ∧ ws.loopCount b l = .ok count ∧
    turns count ≠ 0

/-- What is reported of a loop after its body: that there was nothing in it, or the copies. -/
def ranEvent (block : BlockId) (count : Option Float) (bodySteps : Nat) : Event :=
  if bodySteps = 0 then .loopBodyEmpty block (tripCount count)
  else .loopUnrolled block (turns count) bodySteps (turns count * bodySteps)

mutual

/-- The blocks that follow on a block before the next one of its chain, and the report of both. -/
inductive BlockPass (ws : Workspace) (hooks : HookTable) :
    Block → List Block → List Event → Prop where
  /-- An action is not reported. -/
  | action {b : Block} {a : Action} (hkind : b.kind = .ok (.action a)) :
      BlockPass ws hooks b [] []
  /-- A block that has a value is out of place. -/
  | value {b : Block} {e : Expression} (hkind : b.kind = .ok (.expression e)) :
      BlockPass ws hooks b [] [.strayValue b.id b.type]
  /-- A loop has no body. -/
  | noBody {b : Block} {l : Loop} (hkind : b.kind = .ok (.loop l))
      (hbody : b.statements.get? Kind.bodySlot = none) :
      BlockPass ws hooks b [] [.loopWithoutBody b.id]
  /-- A loop has no turns, and its body is not compiled. -/
  | notRun {b c : Block} {l : Loop} {count : Option Float} (hkind : b.kind = .ok (.loop l))
      (hbody : ws.HeadsBody b c) (hcount : ws.loopCount b l = .ok count)
      (hturns : turns count = 0) : BlockPass ws hooks b [] [.loopNotRun b.id]
  /-- A loop has turns.  The chain of its body is reported, and then the loop. -/
  | run {b c : Block} {l : Loop} {count : Option Float} {rest : List Block} {log : List Event}
      {steps : List Step} (hkind : b.kind = .ok (.loop l)) (hbody : ws.HeadsBody b c)
      (hcount : ws.loopCount b l = .ok count) (hturns : turns count ≠ 0)
      (hmeans : ws.ChainMeans hooks c steps) (hwalk : WalkPass ws hooks c rest log) :
      BlockPass ws hooks b (c :: rest)
        (log ++ [.compiledChain c.id steps.length, ranEvent b.id count steps.length])

/-- The blocks that follow on a block up to the end of its chain, and the report of them all. -/
inductive WalkPass (ws : Workspace) (hooks : HookTable) :
    Block → List Block → List Event → Prop where
  /-- The chain ends here. -/
  | last {b : Block} {rest : List Block} {log : List Event} (hblock : BlockPass ws hooks b rest log)
      (hnext : b.next = none) : WalkPass ws hooks b rest log
  /-- The chain goes on. -/
  | link {b next : Block} {rest rest' : List Block} {log log' : List Event}
      (hblock : BlockPass ws hooks b rest log) (hnext : ws.ComesNext b next)
      (hrest : WalkPass ws hooks next rest' log') :
      WalkPass ws hooks b (rest ++ next :: rest') (log ++ log')

end

/-- The blocks of the chains with the given heads, and the report of them and of the chains. -/
inductive ProgramPass (ws : Workspace) (hooks : HookTable) :
    List BlockId → List Block → List Event → Prop where
  /-- No chain is left. -/
  | nil : ProgramPass ws hooks [] [] []
  /-- A chain is followed to its end and reported, and then the others are. -/
  | cons {id : BlockId} {ids : List BlockId} {head : Block} {rest passed : List Block}
      {log log' : List Event} {steps : List Step} (hfound : ws.find? id = some head)
      (hmeans : ws.ChainMeans hooks head steps) (hwalk : WalkPass ws hooks head rest log)
      (hothers : ProgramPass ws hooks ids passed log') :
      ProgramPass ws hooks (id :: ids) (head :: rest ++ passed)
        (log ++ .compiledChain head.id steps.length :: log')

variable {ws : Workspace} {hooks : HookTable} {opts : Options} {b c : Block}

/-! ## What is compiled is passed -/

/-- A chain whose steps are found reports a walk along it, and then itself. -/
def ChainReported (ws : Workspace) (hooks : HookTable) (head : Block)
    (x : Traced Failure (List Step)) : Prop :=
  ∀ steps, x.outcome = .ok steps → ∃ rest log, ws.WalkPass hooks head rest log ∧
    ws.ChainMeans hooks head steps ∧ x.events = log ++ [.compiledChain head.id steps.length]

section Parts

variable {body part : Block → Traced Failure (List Step)} {count : Option Float}
  {steps : List Step} {limit : Nat}

/-- A compiled body is reported as empty, or as copied if that is allowed. -/
theorem events_of_copies {refused : Bool} {failure : Failure} {empty copied : Event}
    {found copies : List Step} {x : Traced Failure (List Step)}
    (hx : x = if found.isEmpty then (do
        Traced.report empty
        pure [])
      else (do
        if refused then
          throw failure
        Traced.report copied
        pure copies)) (h : x.outcome = .ok steps) :
    x.events = [if found.length = 0 then empty else copied] := by
  subst hx
  by_cases hempty : found.isEmpty
  · rw [if_pos hempty, List.isEmpty_iff.mp hempty]
    rfl
  · have hlength : found.length ≠ 0 := by simpa using hempty
    rw [if_neg hempty] at h
    rw [if_neg hempty, if_neg hlength]
    cases refused with
    | true => cases h
    | false => rfl

/-- The report of a loop whose steps are found. -/
theorem blockPass_of_unroll {l : Loop} (hkind : b.kind = .ok (.loop l))
    (hcount : ws.loopCount b l = .ok count) (hbody : ∀ c, ws.ChainReported hooks c (body c))
    (h : (ws.unroll limit body b count).outcome = .ok steps) :
    ∃ rest, ws.BlockPass hooks b rest (ws.unroll limit body b count).events := by
  have hfinite := finiteCount_of_loopCount hcount
  unfold unroll at h ⊢
  rcases hslot : b.statements.get? Kind.bodySlot with _ | id
  · exact ⟨[], .noBody hkind hslot⟩
  · simp only [hslot] at h ⊢
    obtain ⟨c, hc, h, hevents⟩ := Traced.events_of_bind h
    have hheads : ws.HeadsBody b c := ⟨id, hslot, resolve_eq_ok_iff.mp (checked_eq_ok_iff.mp hc)⟩
    rw [hevents]
    by_cases hzero : Decimal.isZero (tripCount count)
    · rw [if_pos hzero] at h ⊢
      obtain ⟨_, -, -, hevents⟩ := Traced.events_of_bind h
      rw [hevents]
      exact ⟨[], .notRun hkind hheads hcount ((isZero_tripCount_iff hfinite).mp hzero)⟩
    · have hturns : turns count ≠ 0 := fun h => hzero ((isZero_tripCount_iff hfinite).mpr h)
      rw [if_neg hzero] at h ⊢
      obtain ⟨found, hfound, h, hevents⟩ := Traced.events_of_bind h
      obtain ⟨rest, log, hwalk, hmeans, hlog⟩ := hbody c found hfound
      have hpass := BlockPass.run hkind hheads hcount hturns hmeans hwalk
      rw [hevents, hlog, events_of_copies rfl h, List.append_assoc, wholePart_tripCount]
      exact ⟨_, hpass⟩

/-- The report of a block whose part of the chain is found. -/
theorem blockPass_of_contribution (hbody : ∀ c, ws.ChainReported opts.hooks c (body c))
    (h : (ws.contribution opts body b).outcome = .ok steps) :
    ∃ rest, ws.BlockPass opts.hooks b rest (ws.contribution opts body b).events := by
  unfold contribution at h ⊢
  obtain ⟨k, hk, h, hevents⟩ := Traced.events_of_bind h
  have hkind : b.kind = .ok k := checked_eq_ok_iff.mp hk
  rw [hevents]
  cases k with
  | expression e => exact ⟨[], .value hkind⟩
  | action a =>
    dsimp only at h ⊢
    obtain ⟨s, -, -, hevents⟩ := Traced.events_of_bind h
    rw [hevents]
    exact ⟨[], .action hkind⟩
  | loop l =>
    dsimp only at h ⊢
    obtain ⟨count, hcount, h, hevents⟩ := Traced.events_of_bind h
    rw [hevents]
    exact blockPass_of_unroll hkind hcount hbody h

/-- The report of a walk whose steps are found, behind what was reported before. -/
theorem walkPass_of_walk
    (hpart : ∀ b steps, (part b).outcome = .ok steps →
      ∃ rest, ws.BlockPass hooks b rest (part b).events)
    {bound : Nat} {events : Array Event} {done : Array Step}
    (h : (ws.walk limit part bound events done b).outcome = .ok steps) :
    ∃ rest log, ws.WalkPass hooks b rest log ∧
      (ws.walk limit part bound events done b).events = events.toList ++ log := by
  induction bound generalizing events done b with
  | zero => cases h
  | succ bound ih =>
    unfold walk at h ⊢
    dsimp only at h ⊢
    rcases hmore : (part b).outcome with e | more
    · simp only [hmore] at h
      cases h
    · obtain ⟨rest, hblock⟩ := hpart b more hmore
      simp only [hmore] at h ⊢
      rcases hlimit : checkLimit limit (done ++ more).size b.id with e | _
      · simp only [hlimit] at h
        cases h
      · simp only [hlimit] at h ⊢
        rcases hnext : b.next with _ | id
        · exact ⟨rest, (part b).events, .last hblock hnext, by simp⟩
        · simp only [hnext] at h ⊢
          rcases hfound : ws.resolve b.id id with e | next
          · simp only [hfound] at h
            cases h
          · simp only [hfound] at h ⊢
            obtain ⟨rest', log, hrest, hevents⟩ := ih h
            have hcomes : ws.ComesNext b next := ⟨id, hnext, resolve_eq_ok_iff.mp hfound⟩
            refine ⟨_, _, .link hblock hcomes hrest, ?_⟩
            rw [hevents]
            simp

end Parts

/-- What is reported of a chain.  The induction is on the depth of bodies. -/
theorem chainReported_chainWithin (nest : Nat) (head : Block) :
    ws.ChainReported opts.hooks head (ws.chainWithin opts nest head) := by
  induction nest generalizing head with
  | zero => exact nofun
  | succ nest ih =>
    intro steps h
    have hmeans : ws.ChainMeans opts.hooks head steps :=
      chainMeans_of_chainOutcome ((ws.outcome_chainWithin opts (nest + 1) head).symm.trans h)
    unfold chainWithin at h ⊢
    obtain ⟨steps', hsteps, h, hevents⟩ := Traced.events_of_bind h
    cases h
    obtain ⟨rest, log, hwalk, hlog⟩ :=
      walkPass_of_walk (fun b steps => blockPass_of_contribution ih) hsteps
    rw [hevents, hlog]
    exact ⟨rest, log, hwalk, hmeans, rfl⟩

/-- What is reported of several chains. -/
theorem programPass_of_chains {done : Nat} {ids : List BlockId} {steps : List Step}
    (h : (ws.chains opts done ids).outcome = .ok steps) :
    ∃ passed, ws.ProgramPass opts.hooks ids passed (ws.chains opts done ids).events := by
  induction ids generalizing done steps with
  | nil => exact ⟨[], .nil⟩
  | cons id rest ih =>
    unfold chains at h ⊢
    obtain ⟨head, hhead, h, hresolve⟩ := Traced.events_of_bind h
    obtain ⟨chain, hchain, h, hfirst⟩ := Traced.events_of_bind h
    obtain ⟨_, -, h, hlimit⟩ := Traced.events_of_bind h
    obtain ⟨more, hmore, -, hlast⟩ := Traced.events_of_bind h
    rw [hresolve, hfirst, hlimit, hlast]
    have hfound : ws.find? id = some head := resolve_eq_ok_iff.mp (checked_eq_ok_iff.mp hhead)
    obtain ⟨walked, log, hwalk, hmeans, hlog⟩ :=
      chainReported_chainWithin ws.nestBound head chain hchain
    obtain ⟨passed, hothers⟩ := ih hmore
    refine ⟨head :: walked ++ passed, ?_⟩
    convert ProgramPass.cons hfound hmeans hwalk hothers using 1
    show [] ++ ((ws.chainWithin opts ws.nestBound head).events ++ ([] ++ (_ ++ []))) = _
    rw [hlog]
    simp

/-- **A compilation is one pass over its program.**  Between the first event and the last, a
compilation that succeeds reports a pass over the chains of the program. -/
theorem exists_programPass {doc : Document} (h : ws.compile opts = .ok doc) :
    ∃ passed log, ws.ProgramPass opts.hooks ws.topIds passed log ∧
      (ws.trace opts).events = .compilingWorkspace ws.size ws.topIds.length ::
        (log ++ [.compiledWorkspace doc.length]) := by
  unfold compile compileFrom trace at *
  unfold traceFrom at h ⊢
  obtain ⟨_, -, h, hfirst⟩ := Traced.events_of_bind h
  obtain ⟨steps, hsteps, h, hchains⟩ := Traced.events_of_bind h
  cases h
  obtain ⟨passed, hpass⟩ := programPass_of_chains hsteps
  rw [hfirst, hchains]
  exact ⟨passed, _, hpass, rfl⟩

end Workspace

end BlockSteps

import Mathlib
import BlockSteps.Compile.Program
import BlockSteps.Proofs.Compile.Turns

/-!
# Compilation without the report

The compiler reports events while it runs, and walks a chain with the events and steps so far in
its hands.  Whether it succeeds, and with which steps, does not depend on either.  This module
states the compiler once more as plain functions into `Except`, each one block at a time and with
nothing carried along but a count:

* `unrollOutcome`, `contributionOutcome`, `walkOutcome`, `chainOutcome`, `chainsOutcome`, one for
  each function of the compiler, and
* `outcome_unroll`, `outcome_contribution`, `outcome_walk`, `outcome_chainWithin`,
  `outcome_chains`, which say that these are the outcomes of the functions that run.

`compileFrom_eq` is the sum: a document is the assembled list of `chainsOutcome`.  The last section
says what each function did when it succeeds; proofs about results take a run apart with these
lemmas and do not open the functions.
-/

namespace BlockSteps

namespace Workspace

variable (ws : Workspace) (opts : Options) (limit : Nat)

/-! ## The same functions on outcomes -/

/-- A body that was compiled, once for each turn. -/
def repeatOutcome (block : BlockId) (trips : Float) (steps : List Step) :
    Except Failure (List Step) :=
  if steps.isEmpty then .ok []
  else if !trips.isFinite || decide (limit < Decimal.wholePart trips * steps.length) then
    .error (.rejected (.stepLimitExceeded limit block))
  else .ok (unrolled (Decimal.wholePart trips) steps)

/-- The steps of a loop block. -/
def unrollOutcome (body : Block → Except Failure (List Step)) (b : Block) (count : Option Float) :
    Except Failure (List Step) :=
  match b.statements.get? Kind.bodySlot with
  | none => .ok []
  | some id => do
    let head ← checked (ws.resolve b.id id)
    if Decimal.isZero (tripCount count) then
      ws.validate head
      pure []
    else
      let steps ← body head
      repeatOutcome limit b.id (tripCount count) steps

/-- The steps of a block in statement position. -/
def contributionOutcome (body : Block → Except Failure (List Step)) (b : Block) :
    Except Failure (List Step) := do
  match ← checked b.kind with
  | .expression _ => pure []
  | .action a => do
    let s ← a.step ws opts.hooks b
    pure [s]
  | .loop l => do
    let count ← ws.loopCount b l
    ws.unrollOutcome opts.maxSteps body b count

/-- The steps of a chain from the block `b`, behind `done` steps of the blocks before it. -/
def walkOutcome (part : Block → Except Failure (List Step)) :
    (bound done : Nat) → Block → Except Failure (List Step)
  | 0, _, _ => .error .endless
  | bound + 1, done, b => do
    let more ← part b
    checked (checkLimit limit (done + more.length) b.id)
    match b.next with
    | none => pure more
    | some id => do
      let next ← checked (ws.resolve b.id id)
      let rest ← walkOutcome part bound (done + more.length) next
      pure (more ++ rest)

/-- The steps of the chain that begins with `head`, through at most `nest` bodies. -/
def chainOutcome : (nest : Nat) → Block → Except Failure (List Step)
  | 0, _ => .error .endless
  | nest + 1, head =>
    ws.walkOutcome opts.maxSteps (ws.contributionOutcome opts (chainOutcome nest))
      (ws.walkBound opts.maxSteps) 0 head

/-- The steps of the chains with the given heads, behind `done` steps of other chains. -/
def chainsOutcome : (done : Nat) → List BlockId → Except Failure (List Step)
  | _, [] => .ok []
  | done, id :: rest => do
    let head ← checked (ws.resolve "workspace" id)
    let steps ← ws.chainOutcome opts ws.nestBound head
    checked (checkLimit opts.maxSteps (done + steps.length) id)
    let more ← chainsOutcome (done + steps.length) rest
    pure (steps ++ more)

/-! ## They are the outcomes -/

theorem outcome_unroll (body : Block → Traced Failure (List Step)) (b : Block)
    (count : Option Float) :
    (ws.unroll limit body b count).outcome =
      ws.unrollOutcome limit (fun head => (body head).outcome) b count := by
  unfold unroll unrollOutcome
  cases b.statements.get? Kind.bodySlot with
  | none => rfl
  | some id =>
    simp only [Traced.outcome_bind, Traced.outcome_lift, apply_ite Traced.outcome,
      Traced.outcome_pure, Traced.outcome_report, Traced.outcome_throw, ok_bind]
    rfl

theorem outcome_contribution (body : Block → Traced Failure (List Step)) (b : Block) :
    (ws.contribution opts body b).outcome =
      ws.contributionOutcome opts (fun head => (body head).outcome) b := by
  unfold contribution contributionOutcome
  rw [Traced.outcome_bind, Traced.outcome_lift]
  cases checked b.kind with
  | error e => rfl
  | ok k =>
    rcases k with a | l | e
    · simp only [ok_bind, Traced.outcome_bind, Traced.outcome_lift, Traced.outcome_pure]
      rfl
    · simp only [ok_bind, Traced.outcome_bind, Traced.outcome_lift, outcome_unroll]
    · rfl

theorem outcome_walk (part : Block → Traced Failure (List Step)) (bound : Nat)
    (events : Array Event) (steps : Array Step) (b : Block) :
    (ws.walk limit part bound events steps b).outcome =
      (ws.walkOutcome limit (fun b => (part b).outcome) bound steps.size b).map
        (steps.toList ++ ·) := by
  induction bound generalizing events steps b with
  | zero => rfl
  | succ bound ih =>
    unfold walk walkOutcome
    dsimp only
    cases (part b).outcome with
    | error e => rfl
    | ok more =>
      have hsize : (steps ++ more).size = steps.size + more.length := by
        rw [← Array.length_toList, Array.toList_appendList, List.length_append,
          Array.length_toList]
      simp only [ok_bind, hsize]
      cases checkLimit limit (steps.size + more.length) b.id with
      | error e => rfl
      | ok _ =>
        simp only [checked_ok, ok_bind]
        cases b.next with
        | none => simp [Except.map, pure, Except.pure]
        | some id =>
          dsimp only
          cases ws.resolve b.id id with
          | error e => rfl
          | ok next =>
            simp only [checked_ok, ok_bind, ih, hsize]
            cases ws.walkOutcome limit (fun b => (part b).outcome) bound
                (steps.size + more.length) next with
            | error e => rfl
            | ok rest => simp [Except.map, pure, Except.pure]

theorem outcome_chainWithin (nest : Nat) (head : Block) :
    (ws.chainWithin opts nest head).outcome = ws.chainOutcome opts nest head := by
  induction nest generalizing head with
  | zero => rfl
  | succ nest ih =>
    have hparts : (fun b => (ws.contribution opts (ws.chainWithin opts nest) b).outcome) =
        ws.contributionOutcome opts (ws.chainOutcome opts nest) := by
      funext b
      rw [outcome_contribution]
      congr 1
      funext head
      exact ih head
    unfold chainWithin chainOutcome
    rw [Traced.outcome_bind, outcome_walk, hparts]
    cases ws.walkOutcome opts.maxSteps (ws.contributionOutcome opts (ws.chainOutcome opts nest))
        (ws.walkBound opts.maxSteps) 0 head with
    | error e => rfl
    | ok steps => rfl

theorem outcome_chain (head : Block) :
    (ws.chain opts head).outcome = ws.chainOutcome opts ws.nestBound head :=
  ws.outcome_chainWithin opts ws.nestBound head

theorem outcome_chains (done : Nat) (heads : List BlockId) :
    (ws.chains opts done heads).outcome = ws.chainsOutcome opts done heads := by
  induction heads generalizing done with
  | nil => rfl
  | cons id rest ih =>
    unfold chains chainsOutcome
    simp only [Traced.outcome_bind, Traced.outcome_lift, outcome_chain, ih, Traced.outcome_pure]
    rfl

/-- A document is the assembled steps of the chains. -/
theorem compileFrom_eq (heads : List BlockId) :
    ws.compileFrom heads opts =
      (ws.chainsOutcome opts 0 heads).map (Document.assemble opts.ids) := by
  unfold compileFrom traceFrom
  simp only [Traced.outcome_bind, Traced.outcome_report, ok_bind, outcome_chains,
    Traced.outcome_pure]
  cases ws.chainsOutcome opts 0 heads with
  | error e => rfl
  | ok steps => rfl

/-! ## What success says -/

variable {ws opts limit}

/-- For a finite count the three questions about it are one: whether the copies are allowed. -/
theorem repeatOutcome_of_finiteCount {block : BlockId} {count : Option Float} {steps : List Step}
    (hc : FiniteCount count) :
    repeatOutcome limit block (tripCount count) steps =
      if turns count * steps.length ≤ limit then .ok (unrolled (turns count) steps)
      else .error (.rejected (.stepLimitExceeded limit block)) := by
  unfold repeatOutcome
  rw [isFinite_tripCount hc, wholePart_tripCount]
  cases steps with
  | nil => simp [unrolled]
  | cons s rest =>
    by_cases h : turns count * (s :: rest).length ≤ limit
    · rw [if_pos h, if_neg (by simp), if_neg (by simpa using h)]
    · rw [if_neg h, if_neg (by simp), if_pos (by simpa using h)]

/-- A loop with a body either is not run, and its body is checked, or it is copied. -/
theorem unrollOutcome_of_body {body : Block → Except Failure (List Step)} {b : Block}
    {id : BlockId} {count : Option Float} (hb : b.statements.get? Kind.bodySlot = some id)
    (hc : FiniteCount count) :
    ws.unrollOutcome limit body b count =
      (checked (ws.resolve b.id id) >>= fun head =>
        if turns count = 0 then ws.validate head >>= fun _ => .ok []
        else body head >>= fun steps =>
          if turns count * steps.length ≤ limit then .ok (unrolled (turns count) steps)
          else .error (.rejected (.stepLimitExceeded limit b.id))) := by
  unfold unrollOutcome
  rw [hb]
  simp only [isZero_tripCount_iff hc, repeatOutcome_of_finiteCount hc]
  rfl

theorem unrollOutcome_eq_ok {body : Block → Except Failure (List Step)} {b : Block}
    {count : Option Float} {ss : List Step} (hc : FiniteCount count)
    (h : ws.unrollOutcome limit body b count = .ok ss) :
    (b.statements.get? Kind.bodySlot = none ∧ ss = []) ∨
    ∃ id head, b.statements.get? Kind.bodySlot = some id ∧ ws.find? id = some head ∧
      ((turns count = 0 ∧ ws.validate head = .ok () ∧ ss = []) ∨
        (turns count ≠ 0 ∧ ∃ steps, body head = .ok steps ∧
          turns count * steps.length ≤ limit ∧ ss = unrolled (turns count) steps)) := by
  rcases hb : b.statements.get? Kind.bodySlot with _ | id
  · refine .inl ⟨rfl, ?_⟩
    unfold unrollOutcome at h
    rw [hb] at h
    exact (Except.ok.inj h).symm
  · refine .inr ?_
    rw [unrollOutcome_of_body hb hc] at h
    obtain ⟨head, hhead, h⟩ := bind_eq_ok_iff.mp h
    rw [checked_eq_ok_iff, resolve_eq_ok_iff] at hhead
    refine ⟨id, head, rfl, hhead, ?_⟩
    by_cases hz : turns count = 0
    · rw [if_pos hz] at h
      obtain ⟨_, hv, h⟩ := bind_eq_ok_iff.mp h
      exact .inl ⟨hz, hv, (Except.ok.inj h).symm⟩
    · rw [if_neg hz] at h
      obtain ⟨steps, hs, h⟩ := bind_eq_ok_iff.mp h
      split at h
      · rename_i hle
        exact .inr ⟨hz, steps, hs, hle, (Except.ok.inj h).symm⟩
      · cases h

theorem contributionOutcome_eq_ok {body : Block → Except Failure (List Step)} {b : Block}
    {ss : List Step} (h : ws.contributionOutcome opts body b = .ok ss) :
    (∃ e, b.kind = .ok (.expression e) ∧ ss = []) ∨
    (∃ a s, b.kind = .ok (.action a) ∧ a.step ws opts.hooks b = .ok s ∧ ss = [s]) ∨
    ∃ l count, b.kind = .ok (.loop l) ∧ ws.loopCount b l = .ok count ∧
      ws.unrollOutcome opts.maxSteps body b count = .ok ss := by
  obtain ⟨k, hk, h⟩ := bind_eq_ok_iff.mp h
  rw [checked_eq_ok_iff] at hk
  rcases k with a | l | e
  · obtain ⟨s, hs, h⟩ := bind_eq_ok_iff.mp h
    exact .inr (.inl ⟨a, s, hk, hs, (Except.ok.inj h).symm⟩)
  · obtain ⟨count, hcount, h⟩ := bind_eq_ok_iff.mp h
    exact .inr (.inr ⟨l, count, hk, hcount, h⟩)
  · exact .inl ⟨e, hk, (Except.ok.inj h).symm⟩

theorem walkOutcome_succ_eq_ok {part : Block → Except Failure (List Step)} {bound done : Nat}
    {b : Block} {ss : List Step} (h : ws.walkOutcome limit part (bound + 1) done b = .ok ss) :
    ∃ more, part b = .ok more ∧ done + more.length ≤ limit ∧
      ((b.next = none ∧ ss = more) ∨
        ∃ id next rest, b.next = some id ∧ ws.find? id = some next ∧
          ws.walkOutcome limit part bound (done + more.length) next = .ok rest ∧
          ss = more ++ rest) := by
  unfold walkOutcome at h
  obtain ⟨more, hmore, h⟩ := bind_eq_ok_iff.mp h
  obtain ⟨_, hle, h⟩ := bind_eq_ok_iff.mp h
  rw [checked_eq_ok_iff, checkLimit_eq_ok_iff] at hle
  refine ⟨more, hmore, hle, ?_⟩
  rcases hb : b.next with _ | id
  · rw [hb] at h
    exact .inl ⟨rfl, (Except.ok.inj h).symm⟩
  · rw [hb] at h
    obtain ⟨next, hnext, h⟩ := bind_eq_ok_iff.mp h
    obtain ⟨rest, hrest, h⟩ := bind_eq_ok_iff.mp h
    rw [checked_eq_ok_iff, resolve_eq_ok_iff] at hnext
    exact .inr ⟨id, next, rest, rfl, hnext, hrest, (Except.ok.inj h).symm⟩

theorem chainsOutcome_cons_eq_ok {done : Nat} {id : BlockId} {rest : List BlockId}
    {ss : List Step} (h : ws.chainsOutcome opts done (id :: rest) = .ok ss) :
    ∃ head steps more, ws.find? id = some head ∧
      ws.chainOutcome opts ws.nestBound head = .ok steps ∧
      done + steps.length ≤ opts.maxSteps ∧
      ws.chainsOutcome opts (done + steps.length) rest = .ok more ∧ ss = steps ++ more := by
  unfold chainsOutcome at h
  obtain ⟨head, hhead, h⟩ := bind_eq_ok_iff.mp h
  obtain ⟨steps, hsteps, h⟩ := bind_eq_ok_iff.mp h
  obtain ⟨_, hle, h⟩ := bind_eq_ok_iff.mp h
  obtain ⟨more, hmore, h⟩ := bind_eq_ok_iff.mp h
  rw [checked_eq_ok_iff, resolve_eq_ok_iff] at hhead
  rw [checked_eq_ok_iff, checkLimit_eq_ok_iff] at hle
  exact ⟨head, steps, more, hhead, hsteps, hle, hmore, (Except.ok.inj h).symm⟩

theorem compileFrom_eq_ok {heads : List BlockId} {doc : Document}
    (h : ws.compileFrom heads opts = .ok doc) :
    ∃ steps, ws.chainsOutcome opts 0 heads = .ok steps ∧
      doc = Document.assemble opts.ids steps := by
  rw [compileFrom_eq] at h
  cases hs : ws.chainsOutcome opts 0 heads with
  | error e =>
    rw [hs] at h
    cases h
  | ok steps =>
    rw [hs] at h
    exact ⟨steps, rfl, (Except.ok.inj h).symm⟩

end Workspace

end BlockSteps

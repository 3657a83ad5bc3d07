import Mathlib
import BlockSteps.Proofs.Compile.Meaning
import BlockSteps.Proofs.Workspace.Reference

/-!
# The step limit is exact

The limit is looked at in four places: before a loop is copied, after every block of a chain, after
every chain of the program, and not at all where nothing is copied.  None of these checks refuses a
program whose document would have kept the limit, and none is missing.

**How two limits are compared.**  `StopsAt` says of two runs of one computation, a loose one and a
strict one, that the strict run either does what the loose run does or is stopped at the limit, and
then only because the steps of the loose run are too many.  Every function of the compiler keeps
`StopsAt` (`unrollOutcome_stopsAt` to `chainsOutcome_stopsAt`): what was too much inside a loop or a
chain is too much in what it is a part of, because a loop that is run has at least one turn.

**Where circles would matter.**  The bound on the length of a walk depends on the limit.  Without
circles neither bound is ever reached, so the difference is never seen.

**Main statements.**  `length_le_of_chainOutcome` and `length_le_of_unrollOutcome`: no chain and no
loop gives more steps than are allowed, at whatever depth.  `compile_limit_exact`: of two limits the
smaller one gives the same document exactly if the document keeps it, and refuses it otherwise.
-/

namespace BlockSteps

/-- The same choices under another limit. -/
def Options.withLimit (opts : Options) (limit : Nat) : Options := { opts with maxSteps := limit }

/-- Of two runs behind `done` steps the strict one does what the loose one does, or it is stopped
because the steps are more than the limit allows. -/
structure StopsAt (limit done : Nat) (loose strict : Except Failure (List Step)) : Prop where
  /-- What the strict run gives, the loose run gives too. -/
  loose_of_strict : ∀ ss, strict = .ok ss → loose = .ok ss
  /-- What the loose run gives, the strict run gives too unless it is too much. -/
  strict_of_loose : ∀ ss, loose = .ok ss → strict = .ok ss ∨
    (limit < done + ss.length ∧
      ∃ block, strict = .error (.rejected (.stepLimitExceeded limit block)))

namespace StopsAt

variable {limit done : Nat} {α : Type}

theorem refl (x : Except Failure (List Step)) : StopsAt limit done x x :=
  ⟨fun _ h => h, fun _ h => .inl h⟩

/-- Two failures agree whatever they are. -/
theorem of_error (e f : Failure) : StopsAt limit done (.error e) (.error f) :=
  ⟨nofun, nofun⟩

theorem mono {x y : Except Failure (List Step)} {more : Nat} (hmore : done ≤ more)
    (h : StopsAt limit done x y) : StopsAt limit more x y := by
  refine ⟨h.loose_of_strict, fun ss hx => ?_⟩
  obtain hy | ⟨hlt, hy⟩ := h.strict_of_loose ss hx
  · exact .inl hy
  · exact .inr ⟨by omega, hy⟩

/-- The first part of both runs is the same computation. -/
theorem bind_same (x : Except Failure α) {f g : α → Except Failure (List Step)}
    (h : ∀ a, StopsAt limit done (f a) (g a)) : StopsAt limit done (x >>= f) (x >>= g) := by
  cases x with
  | error e => exact of_error e e
  | ok a => exact h a

/-- The first parts of the runs agree, and what follows does not make the steps fewer. -/
theorem bind {x y : Except Failure (List Step)} {f g : List Step → Except Failure (List Step)}
    (hxy : StopsAt limit done x y) (hfg : ∀ ss, StopsAt limit done (f ss) (g ss))
    (hlen : ∀ ss rs, f ss = .ok rs → ss.length ≤ rs.length) :
    StopsAt limit done (x >>= f) (y >>= g) := by
  refine ⟨fun rs h => ?_, fun rs h => ?_⟩
  · obtain ⟨ss, hy, hg⟩ := bind_eq_ok_iff.mp h
    rw [hxy.loose_of_strict ss hy, ok_bind]
    exact (hfg ss).loose_of_strict rs hg
  · obtain ⟨ss, hx, hf⟩ := bind_eq_ok_iff.mp h
    have hle := hlen ss rs hf
    obtain hy | ⟨hlt, block, hy⟩ := hxy.strict_of_loose ss hx
    · rw [hy, ok_bind]
      exact (hfg ss).strict_of_loose rs hf
    · exact .inr ⟨by omega, block, by rw [hy, error_bind]⟩

/-- Steps that stand before the steps of both runs count as done. -/
theorem append {x y : Except Failure (List Step)} (before : List Step)
    (h : StopsAt limit (done + before.length) x y) :
    StopsAt limit done (x >>= fun ss => pure (before ++ ss))
      (y >>= fun ss => pure (before ++ ss)) := by
  refine ⟨fun rs hy => ?_, fun rs hx => ?_⟩
  · obtain ⟨ss, hy, hrs⟩ := bind_eq_ok_iff.mp hy
    rw [h.loose_of_strict ss hy]
    exact hrs
  · obtain ⟨ss, hss, hrs⟩ := bind_eq_ok_iff.mp hx
    cases hrs
    obtain hy | ⟨hlt, block, hy⟩ := h.strict_of_loose ss hss
    · exact .inl (by rw [hy]; rfl)
    · refine .inr ⟨?_, block, by rw [hy, error_bind]⟩
      rw [List.length_append]
      omega

/-- The check that ends both runs on too many steps, before what follows. -/
theorem check {limit' steps : Nat} {block : BlockId} {x y : Except Failure (List Step)}
    (hle : limit ≤ limit') (h : StopsAt limit done x y)
    (hlen : ∀ ss, x = .ok ss → steps ≤ done + ss.length) :
    StopsAt limit done (checked (checkLimit limit' steps block) >>= fun _ => x)
      (checked (checkLimit limit steps block) >>= fun _ => y) := by
  by_cases hs : steps ≤ limit
  · have loose : checkLimit limit' steps block = .ok () :=
      checkLimit_eq_ok_iff.mpr (Nat.le_trans hs hle)
    have strict : checkLimit limit steps block = .ok () := checkLimit_eq_ok_iff.mpr hs
    rw [loose, strict]
    exact h
  · have strict : checkLimit limit steps block = .error (.stepLimitExceeded limit block) :=
      if_pos (Nat.not_le.mp hs)
    rw [strict, checked_error, error_bind]
    refine ⟨nofun, fun ss hx => .inr ⟨?_, block, rfl⟩⟩
    obtain ⟨_, -, hx⟩ := bind_eq_ok_iff.mp hx
    have := hlen ss hx
    omega

end StopsAt

namespace Workspace

variable {ws : Workspace} {opts : Options}

/-! ## No list is too long -/

theorem length_le_of_repeatOutcome {limit : Nat} {block : BlockId} {trips : Float}
    {steps ss : List Step} (h : repeatOutcome limit block trips steps = .ok ss) :
    ss.length ≤ limit := by
  unfold repeatOutcome at h
  split at h
  · cases h
    exact Nat.zero_le _
  · split at h
    · cases h
    · rename_i hfits
      cases h
      rw [length_unrolled]
      simp only [Bool.or_eq_true, Bool.not_eq_true', decide_eq_true_eq, not_or, not_lt] at hfits
      exact hfits.2

theorem length_le_of_unrollOutcome {limit : Nat} {body : Block → Except Failure (List Step)}
    {b : Block} {count : Option Float} {ss : List Step}
    (h : ws.unrollOutcome limit body b count = .ok ss) : ss.length ≤ limit := by
  unfold unrollOutcome at h
  split at h
  · cases h
    exact Nat.zero_le _
  · obtain ⟨head, -, h⟩ := bind_eq_ok_iff.mp h
    split at h
    · obtain ⟨_, -, h⟩ := bind_eq_ok_iff.mp h
      cases h
      exact Nat.zero_le _
    · obtain ⟨steps, -, h⟩ := bind_eq_ok_iff.mp h
      exact length_le_of_repeatOutcome h

theorem length_le_of_walkOutcome {limit : Nat} {part : Block → Except Failure (List Step)}
    {bound done : Nat} {b : Block} {ss : List Step}
    (h : ws.walkOutcome limit part bound done b = .ok ss) : done + ss.length ≤ limit := by
  induction bound generalizing done b ss with
  | zero => cases h
  | succ bound ih =>
    obtain ⟨more, -, hle, ⟨-, rfl⟩ | ⟨id, next, rest, -, -, hrest, rfl⟩⟩ :=
      walkOutcome_succ_eq_ok h
    · exact hle
    · have := ih hrest
      rw [List.length_append]
      omega

theorem length_le_of_chainOutcome {nest : Nat} {head : Block} {ss : List Step}
    (h : ws.chainOutcome opts nest head = .ok ss) : ss.length ≤ opts.maxSteps := by
  cases nest with
  | zero => cases h
  | succ nest => simpa using length_le_of_walkOutcome h

theorem length_le_of_chainsOutcome {done : Nat} {heads : List BlockId} {ss : List Step}
    (hdone : done ≤ opts.maxSteps) (h : ws.chainsOutcome opts done heads = .ok ss) :
    done + ss.length ≤ opts.maxSteps := by
  induction heads generalizing done ss with
  | nil =>
    cases h
    exact hdone
  | cons id rest ih =>
    obtain ⟨head, steps, more, -, -, hle, hmore, rfl⟩ := chainsOutcome_cons_eq_ok h
    have := ih hle hmore
    rw [List.length_append]
    omega

/-- A document has no more steps than are allowed. -/
theorem length_le_of_compile {doc : Document} (h : ws.compile opts = .ok doc) :
    doc.length ≤ opts.maxSteps := by
  obtain ⟨steps, hsteps, rfl⟩ := compileFrom_eq_ok h
  rw [Document.length_assemble]
  simpa using length_le_of_chainsOutcome (Nat.zero_le _) hsteps

/-! ## Two limits -/

variable {limit limit' : Nat}

/-- What is too much in a body is too much in its copies, because there is at least one. -/
theorem unrollOutcome_stopsAt (hle : limit ≤ limit')
    {loose strict : Block → Except Failure (List Step)}
    (hbody : ∀ head, StopsAt limit 0 (loose head) (strict head)) {b : Block}
    {count : Option Float} (hc : FiniteCount count) :
    StopsAt limit 0 (ws.unrollOutcome limit' loose b count)
      (ws.unrollOutcome limit strict b count) := by
  rcases hb : b.statements.get? Kind.bodySlot with _ | id
  · simp only [unrollOutcome, hb]
    exact StopsAt.refl _
  · rw [unrollOutcome_of_body hb hc, unrollOutcome_of_body hb hc]
    apply StopsAt.bind_same
    intro head
    by_cases hz : turns count = 0
    · rw [if_pos hz, if_pos hz]
      exact StopsAt.refl _
    · rw [if_neg hz, if_neg hz]
      apply (hbody head).bind
      · intro steps
        by_cases hfit : turns count * steps.length ≤ limit
        · rw [if_pos hfit, if_pos (Nat.le_trans hfit hle)]
          exact StopsAt.refl _
        · rw [if_neg hfit]
          refine ⟨nofun, fun ss h => .inr ⟨?_, b.id, rfl⟩⟩
          split at h
          · cases h
            rw [length_unrolled]
            omega
          · cases h
      · intro steps ss h
        split at h
        · cases h
          rw [length_unrolled]
          exact Nat.le_mul_of_pos_left _ (Nat.pos_of_ne_zero hz)
        · cases h

theorem contributionOutcome_stopsAt (hle : limit ≤ limit')
    {loose strict : Block → Except Failure (List Step)}
    (hbody : ∀ head, StopsAt limit 0 (loose head) (strict head)) (b : Block) :
    StopsAt limit 0 (ws.contributionOutcome (opts.withLimit limit') loose b)
      (ws.contributionOutcome (opts.withLimit limit) strict b) := by
  apply StopsAt.bind_same
  rintro (a | l | e)
  · exact StopsAt.refl _
  · show StopsAt limit 0 (ws.loopCount b l >>= _) (ws.loopCount b l >>= _)
    cases hcount : ws.loopCount b l with
    | error e => exact StopsAt.of_error e e
    | ok count => exact unrollOutcome_stopsAt hle hbody (finiteCount_of_loopCount hcount)
  · exact StopsAt.refl _

/-- Without circles a walk ends before a bound that is greater than what lies below its head, so two
such bounds are as good as one. -/
theorem walkOutcome_stopsAt (hacyclic : ws.Acyclic) (hle : limit ≤ limit')
    {loose strict : Block → Except Failure (List Step)}
    (hpart : ∀ b, StopsAt limit 0 (loose b) (strict b)) {bound bound' done : Nat} {b : Block}
    (hbound : ws.below b < bound) (hbound' : ws.below b < bound') :
    StopsAt limit done (ws.walkOutcome limit' loose bound' done b)
      (ws.walkOutcome limit strict bound done b) := by
  induction bound generalizing bound' done b with
  | zero => omega
  | succ bound ih =>
    obtain _ | bound' := bound'
    · omega
    unfold walkOutcome
    apply ((hpart b).mono (Nat.zero_le done)).bind
    · intro more
      cases hnext : b.next with
      | none =>
        apply StopsAt.check hle (StopsAt.refl _)
        intro ss h
        cases h
        exact Nat.le_refl _
      | some id =>
        apply StopsAt.check hle
        · dsimp only
          cases hfound : ws.resolve b.id id with
          | error e => exact StopsAt.of_error _ _
          | ok next =>
            have hfall := below_lt hacyclic
              ⟨id, mem_references_of_next hnext, resolve_eq_ok_iff.mp hfound⟩
            exact StopsAt.append more (ih (b := next) (by omega) (by omega))
        · intro ss h
          obtain ⟨next, -, h⟩ := bind_eq_ok_iff.mp h
          obtain ⟨rest, -, h⟩ := bind_eq_ok_iff.mp h
          cases h
          rw [List.length_append]
          omega
    · intro more ss h
      obtain ⟨_, -, h⟩ := bind_eq_ok_iff.mp h
      split at h
      · cases h
        exact Nat.le_refl _
      · obtain ⟨next, -, h⟩ := bind_eq_ok_iff.mp h
        obtain ⟨rest, -, h⟩ := bind_eq_ok_iff.mp h
        cases h
        rw [List.length_append]
        omega

theorem below_lt_walkBound (b : Block) (limit : Nat) : ws.below b < ws.walkBound limit := by
  have hsize := ws.below_le_size b
  have hbound : ws.size + 1 ≤ (ws.size + 1) * (limit + 2) := Nat.le_mul_of_pos_right _ (by omega)
  unfold walkBound
  omega

theorem chainOutcome_stopsAt (hacyclic : ws.Acyclic) (hle : limit ≤ limit') (nest : Nat)
    (head : Block) :
    StopsAt limit 0 (ws.chainOutcome (opts.withLimit limit') nest head)
      (ws.chainOutcome (opts.withLimit limit) nest head) := by
  induction nest generalizing head with
  | zero => exact StopsAt.refl _
  | succ nest ih =>
    exact walkOutcome_stopsAt hacyclic hle (contributionOutcome_stopsAt hle ih)
      (below_lt_walkBound head limit) (below_lt_walkBound head limit')

theorem chainsOutcome_stopsAt (hacyclic : ws.Acyclic) (hle : limit ≤ limit') (done : Nat)
    (heads : List BlockId) :
    StopsAt limit done (ws.chainsOutcome (opts.withLimit limit') done heads)
      (ws.chainsOutcome (opts.withLimit limit) done heads) := by
  induction heads generalizing done with
  | nil => exact StopsAt.refl _
  | cons id rest ih =>
    unfold chainsOutcome
    apply StopsAt.bind_same
    intro head
    apply ((chainOutcome_stopsAt hacyclic hle ws.nestBound head).mono (Nat.zero_le done)).bind
    · intro steps
      apply StopsAt.check hle (StopsAt.append steps (ih (done + steps.length)))
      intro ss h
      obtain ⟨more, -, h⟩ := bind_eq_ok_iff.mp h
      cases h
      rw [List.length_append]
      omega
    · intro steps ss h
      obtain ⟨_, -, h⟩ := bind_eq_ok_iff.mp h
      obtain ⟨more, -, h⟩ := bind_eq_ok_iff.mp h
      cases h
      rw [List.length_append]
      omega

/-- **The limit is exact.**  Without circles and for any two limits: the smaller one gives the
document of the greater one if the document keeps it, refuses the workspace because of the limit if
the document does not, and gives no other document.  And no list of steps that any chain, any loop
or the program gives is longer than is allowed. -/
theorem compile_limit_exact (hacyclic : ws.Acyclic) (opts : Options) (hle : limit ≤ limit') :
    (∀ doc, ws.compile (opts.withLimit limit') = .ok doc → doc.length ≤ limit →
      ws.compile (opts.withLimit limit) = .ok doc) ∧
    (∀ doc, ws.compile (opts.withLimit limit') = .ok doc → limit < doc.length →
      ∃ block, ws.compile (opts.withLimit limit) =
        .error (.rejected (.stepLimitExceeded limit block))) ∧
    (∀ doc, ws.compile (opts.withLimit limit) = .ok doc →
      ws.compile (opts.withLimit limit') = .ok doc) ∧
    (∀ nest head ss, (ws.chainWithin opts nest head).outcome = .ok ss →
      ss.length ≤ opts.maxSteps) ∧
    (∀ body b count ss, (ws.unroll opts.maxSteps body b count).outcome = .ok ss →
      ss.length ≤ opts.maxSteps) ∧
    ∀ doc, ws.compile opts = .ok doc → doc.length ≤ opts.maxSteps := by
  have hstops : StopsAt limit 0 (ws.chainsOutcome (opts.withLimit limit') 0 ws.topIds)
      (ws.chainsOutcome (opts.withLimit limit) 0 ws.topIds) :=
    chainsOutcome_stopsAt hacyclic hle 0 ws.topIds
  have hloose : ∀ doc, ws.compile (opts.withLimit limit') = .ok doc →
      (ws.compile (opts.withLimit limit) = .ok doc ∨ (limit < doc.length ∧
        ∃ block, ws.compile (opts.withLimit limit) =
          .error (.rejected (.stepLimitExceeded limit block)))) := by
    intro doc h
    obtain ⟨ss, hss, rfl⟩ := compileFrom_eq_ok h
    obtain hstrict | ⟨hlt, block, hstrict⟩ := hstops.strict_of_loose ss hss
    · refine .inl ?_
      rw [compile, compileFrom_eq, hstrict]
      rfl
    · refine .inr ⟨by simpa using hlt, block, ?_⟩
      rw [compile, compileFrom_eq, hstrict]
      rfl
  refine ⟨fun doc h hfits => ?_, fun doc h hlong => ?_, fun doc h => ?_, fun nest head ss h => ?_,
    fun body b count ss h => ?_, fun doc h => length_le_of_compile h⟩
  · obtain hstrict | ⟨hlt, -⟩ := hloose doc h
    · exact hstrict
    · omega
  · obtain hstrict | ⟨-, hstrict⟩ := hloose doc h
    · have hshort : doc.length ≤ limit := length_le_of_compile hstrict
      omega
    · exact hstrict
  · obtain ⟨ss, hss, rfl⟩ := compileFrom_eq_ok h
    rw [compile, compileFrom_eq, hstops.loose_of_strict ss hss]
    rfl
  · rw [outcome_chainWithin] at h
    exact length_le_of_chainOutcome h
  · rw [outcome_unroll] at h
    exact length_le_of_unrollOutcome h

/-- In `loopInLoop` every reference leads to a later block. -/
theorem acyclic_loopInLoop : loopInLoop.Acyclic :=
  acyclic_of_rank (fun b => 7 - loopInLoop.ids.idxOf b.id) (by decide +kernel)

/-- The four steps of `loopInLoop` keep a limit of four and not one of three. -/
theorem compile_limit_exact_loopInLoop :
    loopInLoop.Acyclic ∧ 3 ≤ 4 ∧
    loopInLoop.compile (Options.withLimit { ids := .indexed } 4) = .ok loopInLoopDocument ∧
    3 < loopInLoopDocument.length ∧
    ∃ block, loopInLoop.compile (Options.withLimit { ids := .indexed } 3) =
      .error (.rejected (.stepLimitExceeded 3 block)) := by
  have h : loopInLoop.compile (Options.withLimit { ids := .indexed } 4) =
      .ok loopInLoopDocument := by decide +kernel
  have hexact := compile_limit_exact acyclic_loopInLoop { ids := .indexed } (show 3 ≤ 4 by decide)
  exact ⟨acyclic_loopInLoop, by decide, h, by decide, hexact.2.1 _ h (by decide)⟩

end Workspace

end BlockSteps

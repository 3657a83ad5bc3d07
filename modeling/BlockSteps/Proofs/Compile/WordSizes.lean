import Mathlib
import BlockSteps.Proofs.Compile.IdleBodies
import BlockSteps.Proofs.Compile.Limit
import BlockSteps.Proofs.Decimal.Comparison

/-!
# The size of a loop in machine words

The compiler computes the size of a loop with natural numbers.  A machine has words of 64 bits and
doubles for it, and each step on the way can go wrong: the limit is rounded, up or down, when it is
compared with the count as a double; a count beyond the words is cut to the greatest word; and the
product of the turns and the steps of the body need not be a word.  `unrollInWords` is the unrolling
of a loop with these steps, and this module says that the result is the same.

**Why the three guards suffice.**  The first guard refuses counts above the rounded limit, and such
a count is above the limit itself (`lt_value_of_toFloat_lt`).  Of the counts that pass, those below
`2 ^ 64` are read exactly and the checked product decides.  The others are cut to `2 ^ 64 - 1`, and
that is above every limit but the greatest word, for a body with at least one step
(`allowedTurns?_eq`).  For that one limit the cut count would pass.

**What is left out.**  Room for all copies is asked for in one piece before the first is made, and
no machine gives more than `2 ^ 63 - 1` bytes; a request above that ends the program.  Here memory
has no bound.  So where the limit allows more copies than fit, what is said is about their number
and not about the room for them.

**Main statement.**  `unroll_exact`: with a finite count and a body that compiles, a loop is refused
for the limit exactly if the count is at least one and its floor times the steps of the body is more
than the limit, and otherwise has exactly so many steps.  A count below one leaves the body to the
check, which may reject what compiling does not look at (`unroll_half_rejected_unreadGhost`).
-/

namespace BlockSteps

open Decimal

/-- What follows a computation has to agree only on what the computation comes out with. -/
theorem Traced.bind_congr {ε α β : Type} {x : Traced ε α} {f g : α → Traced ε β}
    (h : ∀ a, x.outcome = .ok a → f a = g a) : (x >>= f) = x >>= g := by
  obtain ⟨events, outcome⟩ := x
  cases outcome with
  | error e => rfl
  | ok a =>
    show Traced.mk (events ++ (f a).events) (f a).outcome = .mk _ _
    rw [h a rfl]

/-! ## Counts as numbers -/

section Counts

variable {x : Float} (hx : x.isFinite = true)
include hx

theorem one_le_iff_value : 1 ≤ x ↔ 1 ≤ value x := by
  rw [le_iff_value_le rfl hx, value_one]

/-- The turns of a count are the floor of its number. -/
theorem turns_eq_floor : turns (some x) = ⌊value x⌋₊ := by
  unfold turns
  dsimp only
  split
  · rename_i hone
    have hvalue := (one_le_iff_value hx).mp hone
    exact wholePart_eq_floor hx (by linarith)
  · rename_i hone
    rw [one_le_iff_value hx, not_le] at hone
    exact (Nat.floor_eq_zero.mpr hone).symm

end Counts

/-- The truncated count is the number of turns. -/
theorem value_tripCount {count : Option Float} (h : FiniteCount count) :
    value (tripCount count) = turns count := by
  rcases count with _ | x
  · exact value_zero.trans Nat.cast_zero.symm
  · unfold tripCount turns
    dsimp only
    split
    · rename_i hone
      have hx := h x rfl
      have hvalue := (one_le_iff_value hx).mp hone
      exact value_truncate hx (by linarith)
    · exact value_zero.trans Nat.cast_zero.symm

/-! ## Sizes in words -/

/-- The product of two words, unless it is too great for a word. -/
def wordProduct? (a b : UInt64) : Option UInt64 :=
  if a.toNat * b.toNat < UInt64.size then some (a * b) else none

/-- The turns that the limit allows for a body of `size` steps: the count is compared with the limit
as a double, turned into a word, and multiplied. -/
def allowedTurns? (limit : UInt64) (trips : Float) (size : UInt64) : Option UInt64 :=
  if limit.toFloat < trips then none
  else
    let turns := trips.toUInt64
    match wordProduct? size turns with
    | some total => if total ≤ limit then some turns else none
    | none => none

theorem wordProduct?_eq_some_iff {a b total : UInt64} :
    wordProduct? a b = some total ↔ a.toNat * b.toNat = total.toNat := by
  unfold wordProduct?
  split
  · rename_i h
    have hmul : (a * b).toNat = a.toNat * b.toNat := by
      rw [UInt64.toNat_mul, Nat.mod_eq_of_lt h]
    rw [Option.some.injEq, ← UInt64.toNat_inj, hmul]
  · rename_i h
    have := total.toNat_lt
    exact ⟨nofun, fun heq => absurd (heq ▸ this) h⟩

/-- The checked product passes the limit exactly if the product of the numbers does. -/
theorem wordProduct?_passes {a b limit : UInt64} {α : Type} (turns : α) :
    (match wordProduct? a b with
      | some total => if total ≤ limit then some turns else none
      | none => none) = if a.toNat * b.toNat ≤ limit.toNat then some turns else none := by
  cases hproduct : wordProduct? a b with
  | some total =>
    have htotal := wordProduct?_eq_some_iff.mp hproduct
    simp only [UInt64.le_iff_toNat_le, htotal]
  | none =>
    have hlimit := limit.toNat_lt
    rw [if_neg]
    intro hle
    have hsome : wordProduct? a b = some (a * b) := if_pos (Nat.lt_of_le_of_lt hle hlimit)
    cases hproduct.symm.trans hsome

/-- **The guards are exact together.**  With a limit below the greatest word and at least one step
in the body, a whole number of turns is allowed exactly if all their steps are, and it is read
exactly then. -/
theorem allowedTurns?_eq {limit size : UInt64} {trips : Float} {n : ℕ}
    (hlimit : limit.toNat < 2 ^ 64 - 1) (hsize : 0 < size.toNat) (hfinite : trips.isFinite = true)
    (hvalue : value trips = n) (hn : 0 < n) :
    allowedTurns? limit trips size =
      if n * size.toNat ≤ limit.toNat then some (.ofNat n) else none := by
  have hmany : ∀ k, k ≤ k * size.toNat := fun k => Nat.le_mul_of_pos_right k hsize
  have hpos : 0 < value trips := by
    rw [hvalue]
    exact_mod_cast hn
  have hturns : trips.toUInt64.toNat = min n (2 ^ 64 - 1) := by
    rw [toNat_toUInt64 hfinite hpos, wholePart_eq_floor hfinite hpos, hvalue, Nat.floor_natCast]
  unfold allowedTurns?
  split
  · rename_i habove
    have hlt := lt_value_of_toFloat_lt hfinite habove
    rw [hvalue, Nat.cast_lt] at hlt
    have := hmany n
    rw [if_neg (by omega)]
  · dsimp only
    rw [wordProduct?_passes, hturns, Nat.mul_comm]
    rcases lt_or_ge n (2 ^ 64) with hword | hcut
    · have hexact : trips.toUInt64 = .ofNat n := by
        rw [← UInt64.toNat_inj, hturns, UInt64.toNat_ofNat_of_lt' hword]
        omega
      rw [hexact, show min n (2 ^ 64 - 1) = n by omega]
    · -- The count is cut, and neither what it was nor what it is now is allowed.
      have := hmany n
      have := hmany (2 ^ 64 - 1)
      rw [show min n (2 ^ 64 - 1) = 2 ^ 64 - 1 by omega, if_neg (by omega), if_neg (by omega)]

/-- With the greatest word as the limit, a count of `2 ^ 64` would be cut and pass. -/
example : allowedTurns? (.ofNat (2 ^ 64 - 1)) (UInt64.toFloat (.ofNat (2 ^ 64 - 1))) 1 =
    some (.ofNat (2 ^ 64 - 1)) := by decide +kernel

/-- The same for a limit and a size that are given as numbers, and for the turns of a loop. -/
theorem allowedTurns?_tripCount {limit size : ℕ} {count : Option Float}
    (hlimit : limit < 2 ^ 64 - 1) (hsize : 0 < size) (hword : size < 2 ^ 64)
    (hcount : FiniteCount count) (hturns : turns count ≠ 0) :
    allowedTurns? (.ofNat limit) (tripCount count) (.ofNat size) =
      if turns count * size ≤ limit then some (.ofNat (turns count)) else none := by
  have hlimit' : (UInt64.ofNat limit).toNat = limit :=
    UInt64.toNat_ofNat_of_lt' (show limit < 2 ^ 64 by omega)
  have hsize' : (UInt64.ofNat size).toNat = size := UInt64.toNat_ofNat_of_lt' hword
  rw [allowedTurns?_eq (by omega) (by omega) (isFinite_tripCount hcount) (value_tripCount hcount)
    (Nat.pos_of_ne_zero hturns), hlimit', hsize']

namespace Workspace

/-- The steps of a loop block, with the size of the loop computed in words.  That the room for the
copies has a bound of its own, `2 ^ 63 - 1` bytes, is left out. -/
def unrollInWords (ws : Workspace) (limit : UInt64) (body : Block → Traced Failure (List Step))
    (b : Block) (count : Option Float) : Traced Failure (List Step) :=
  match b.statements.get? Kind.bodySlot with
  | none => do
    Traced.report (.loopWithoutBody b.id)
    pure []
  | some id => do
    let head ← checked (ws.resolve b.id id)
    let trips := tripCount count
    if trips == 0 then
      ws.validate head
      Traced.report (.loopNotRun b.id)
      pure []
    else
      let steps ← body head
      if steps.isEmpty then
        Traced.report (.loopBodyEmpty b.id trips)
        pure []
      else
        match allowedTurns? limit trips (.ofNat steps.length) with
        | none => throw (.rejected (.stepLimitExceeded limit.toNat b.id))
        | some turns => do
          Traced.report
            (.loopUnrolled b.id turns.toNat steps.length (turns.toNat * steps.length))
          pure (unrolled turns.toNat steps)

variable {ws : Workspace} {opts : Options} {nest : Nat} {b head : Block}

/-- In words a loop is not run exactly if it has no turns. -/
theorem tripCount_beq_zero {count : Option Float} (h : FiniteCount count) :
    (tripCount count == 0) = isZero (tripCount count) := by
  rw [Bool.eq_iff_iff, isZero_tripCount_iff h, beq_iff_value_eq (isFinite_tripCount h) rfl,
    value_tripCount h, value_zero, Nat.cast_eq_zero]

/-- Unrolled in words or with numbers, a loop is the same, reports included, if compiling bodies
gives no more steps than a word can count. -/
theorem unrollInWords_eq {limit : Nat} (hlimit : limit < 2 ^ 64 - 1)
    {body : Block → Traced Failure (List Step)} {count : Option Float} (hcount : FiniteCount count)
    (hbody : ∀ head steps, (body head).outcome = .ok steps → steps.length < 2 ^ 64) :
    ws.unrollInWords (.ofNat limit) body b count = ws.unroll limit body b count := by
  have hlimit' : (UInt64.ofNat limit).toNat = limit :=
    UInt64.toNat_ofNat_of_lt' (show limit < 2 ^ 64 by omega)
  unfold unrollInWords unroll
  cases b.statements.get? Kind.bodySlot with
  | none => rfl
  | some id =>
    refine Traced.bind_congr fun head _ => ?_
    simp only [tripCount_beq_zero hcount]
    by_cases hzero : isZero (tripCount count) = true
    · rw [if_pos hzero, if_pos hzero]
    rw [if_neg hzero, if_neg hzero]
    refine Traced.bind_congr fun steps hsteps => ?_
    by_cases hempty : steps.isEmpty = true
    · rw [if_pos hempty, if_pos hempty]
    rw [if_neg hempty, if_neg hempty]
    have hsome : 0 < steps.length := List.length_pos_iff.mpr fun h => hempty (by rw [h]; rfl)
    rw [isZero_tripCount_iff hcount] at hzero
    rw [allowedTurns?_tripCount hlimit hsome (hbody head steps hsteps) hcount hzero,
      wholePart_tripCount, isFinite_tripCount hcount]
    by_cases hfits : turns count * steps.length ≤ limit
    · -- There is a step in the body, so the turns are no more than the steps and fit in a word.
      have hturns : (UInt64.ofNat (turns count)).toNat = turns count := by
        have := Nat.le_mul_of_pos_right (turns count) hsome
        exact UInt64.toNat_ofNat_of_lt' (show turns count < 2 ^ 64 by omega)
      rw [if_pos hfits]
      simp only [hturns, Bool.not_true, Bool.false_or, decide_eq_true_eq, Nat.not_lt.mpr hfits,
        if_false]
    · rw [if_neg hfits]
      simp only [hlimit', Bool.not_true, Bool.false_or, decide_eq_true_eq, Nat.not_le.mp hfits,
        if_true]
      rfl

/-- A loop over a body that compiles is checked if it has no turns, and else copied or refused. -/
theorem outcome_unroll_of_steps {steps : List Step} {count : Option Float}
    (hbody : ws.HeadsBody b head) (hsteps : (ws.chainWithin opts nest head).outcome = .ok steps)
    (hcount : FiniteCount count) :
    (ws.unroll opts.maxSteps (ws.chainWithin opts nest) b count).outcome =
      if turns count = 0 then ws.validate head >>= fun _ => .ok []
      else if turns count * steps.length ≤ opts.maxSteps then .ok (unrolled (turns count) steps)
      else .error (.rejected (.stepLimitExceeded opts.maxSteps b.id)) := by
  obtain ⟨id, hid, hhead⟩ := hbody
  rw [outcome_unroll, unrollOutcome_of_body hid hcount, resolve_eq_ok_iff.mpr hhead, checked_ok,
    ok_bind, hsteps, ok_bind]

/-- **The size of a loop is exact.**  Let the limit be below the greatest word and the count finite,
and let the body of the loop compile, at whatever depth.  Computed in words the loop comes out as it
does with numbers.  It is refused for the limit exactly if the count is at least one and its floor
times the steps of the body is more than the limit.  If it is not, a count of at least one gives
exactly so many steps.  With a count below one there are none if everything below the head of the
body is sound, and else the loop is rejected for an unknown type or a dangling reference.  The bound
on the room that the copies can be given is left out. -/
theorem unroll_exact {steps : List Step} {x : Float} (hlimit : opts.maxSteps < 2 ^ 64 - 1)
    (hbody : ws.HeadsBody b head) (hsteps : (ws.chainWithin opts nest head).outcome = .ok steps)
    (hx : x.isFinite = true) :
    ws.unrollInWords (.ofNat opts.maxSteps) (ws.chainWithin opts nest) b (some x) =
      ws.unroll opts.maxSteps (ws.chainWithin opts nest) b (some x) ∧
    (∀ limit block, (ws.unroll opts.maxSteps (ws.chainWithin opts nest) b (some x)).outcome =
        .error (.rejected (.stepLimitExceeded limit block)) ↔
      (limit = opts.maxSteps ∧ block = b.id) ∧
        1 ≤ Decimal.value x ∧ opts.maxSteps < steps.length * ⌊Decimal.value x⌋₊) ∧
    (1 ≤ Decimal.value x → steps.length * ⌊Decimal.value x⌋₊ ≤ opts.maxSteps →
      ∃ copies, (ws.unroll opts.maxSteps (ws.chainWithin opts nest) b (some x)).outcome =
        .ok copies ∧ copies.length = steps.length * ⌊Decimal.value x⌋₊) ∧
    (Decimal.value x < 1 →
      (ws.SoundBelow head ∧
        (ws.unroll opts.maxSteps (ws.chainWithin opts nest) b (some x)).outcome = .ok []) ∨
      (¬ ws.SoundBelow head ∧ ∃ e, e.Structural ∧
        (ws.unroll opts.maxSteps (ws.chainWithin opts nest) b (some x)).outcome =
          .error (.rejected e))) := by
  have hcount : FiniteCount (some x) := by
    rintro _ ⟨⟩
    exact hx
  have hshort : ∀ head steps, (ws.chainWithin opts nest head).outcome = .ok steps →
      steps.length < 2 ^ 64 := by
    intro head steps h
    rw [outcome_chainWithin] at h
    have := length_le_of_chainOutcome h
    omega
  refine ⟨unrollInWords_eq hlimit hcount hshort, ?_⟩
  rw [outcome_unroll_of_steps hbody hsteps hcount, turns_eq_floor hx, Nat.mul_comm ⌊_⌋₊]
  by_cases hidle : Decimal.value x < 1
  · rw [if_pos (Nat.floor_eq_zero.mpr hidle)]
    have hone : ¬ 1 ≤ Decimal.value x := not_le.mpr hidle
    obtain ⟨hsound, hcheck⟩ | ⟨hunsound, e, hcheck, he, -⟩ :=
      validate_cases opts.maxSteps hbody.found
    · rw [hcheck]
      exact ⟨fun _ _ => ⟨nofun, fun h => absurd h.2.1 hone⟩, fun h => absurd h hone,
        fun _ => .inl ⟨hsound, rfl⟩⟩
    · rw [hcheck]
      refine ⟨fun limit block => ⟨fun h => ?_, fun h => absurd h.2.1 hone⟩,
        fun h => absurd h hone, fun _ => .inr ⟨hunsound, e, he, rfl⟩⟩
      cases h
      cases he
  · rw [if_neg (mt Nat.floor_eq_zero.mp hidle)]
    have hone : 1 ≤ Decimal.value x := not_lt.mp hidle
    by_cases hfits : steps.length * ⌊Decimal.value x⌋₊ ≤ opts.maxSteps
    · rw [if_pos hfits]
      refine ⟨fun _ _ => ⟨nofun, fun h => absurd hfits (Nat.not_le.mpr h.2.2)⟩,
        fun _ _ => ⟨_, rfl, ?_⟩, fun h => absurd h hidle⟩
      rw [length_unrolled, Nat.mul_comm]
    · rw [if_neg hfits]
      refine ⟨fun limit block => ⟨fun h => ?_, ?_⟩, fun _ h => absurd h hfits,
        fun h => absurd h hidle⟩
      · cases h
        exact ⟨⟨rfl, rfl⟩, hone, Nat.not_le.mp hfits⟩
      · rintro ⟨⟨rfl, rfl⟩, -⟩
        rfl

/-- A loop with a count of one half over a wait with an input that is not read, for which nothing is
there. -/
def unreadGhost : Workspace where
  blocks := #[
    { id := "q", type := "controls_repeat", fields := .ofList [("TIMES", .number 0.5)],
      statements := .ofList [("DO", "u")] },
    { id := "u", type := "wait_time_block", values := .ofList [("EXTRA", "ghost")] }]

/-- The body compiles to one step and the count is below one, but the loop is rejected. -/
theorem unroll_half_rejected_unreadGhost :
    Options.maxSteps {} < 2 ^ 64 - 1 ∧
      unreadGhost.HeadsBody unreadGhost.blocks[0] unreadGhost.blocks[1] ∧
      (unreadGhost.chain {} unreadGhost.blocks[1]).outcome =
        .ok [{ waitOnce "u" with iteration := [] }] ∧
      Float.isFinite 0.5 = true ∧ Decimal.value 0.5 < 1 ∧
      (unreadGhost.unroll (Options.maxSteps {}) (unreadGhost.chain {}) unreadGhost.blocks[0]
        (some 0.5)).outcome = .error (.rejected (.danglingReference "u" "ghost")) := by
  refine ⟨by decide, ⟨"u", by decide +kernel, by decide +kernel⟩, by decide +kernel,
    by decide +kernel, ?_, by decide +kernel⟩
  rw [← value_one, ← lt_iff_value_lt (by decide +kernel) (by decide +kernel)]
  decide +kernel

/-- A count of `2 ^ 64` is more than `2 ^ 64 - 2` allows, which as a double is `2 ^ 64` itself; and
two turns and three quarters are two. -/
theorem unroll_exact_twoCounts :
    (unreadGhost.unrollInWords (.ofNat (2 ^ 64 - 2))
      (unreadGhost.chain { maxSteps := 2 ^ 64 - 2 }) unreadGhost.blocks[0]
      (some (UInt64.toFloat (.ofNat (2 ^ 64 - 2))))).outcome =
        .error (.rejected (.stepLimitExceeded (2 ^ 64 - 2) "q")) ∧
    ∃ copies, (unreadGhost.unroll (2 ^ 64 - 2) (unreadGhost.chain { maxSteps := 2 ^ 64 - 2 })
      unreadGhost.blocks[0] (some 2.75)).outcome = .ok copies ∧ copies.length = 2 := by
  have hbody : unreadGhost.HeadsBody unreadGhost.blocks[0] unreadGhost.blocks[1] :=
    ⟨"u", by decide +kernel, by decide +kernel⟩
  have hsteps : (unreadGhost.chain { maxSteps := 2 ^ 64 - 2 } unreadGhost.blocks[1]).outcome =
      .ok [{ waitOnce "u" with iteration := [] }] := by decide +kernel
  have hlarge : Decimal.value (UInt64.toFloat (.ofNat (2 ^ 64 - 2))) = 2 ^ 64 := by
    rw [value_of_parts (n := false) (m := 2 ^ 52) (q := 12) (by decide +kernel)]
    norm_num
  have hsmall : Decimal.value 2.75 = 2.75 := by
    rw [value_of_parts (n := false) (m := 11 * 2 ^ 49) (q := -51) (by decide +kernel)]
    norm_num
  obtain ⟨hwords, hrefused, -⟩ := unroll_exact (x := UInt64.toFloat (.ofNat (2 ^ 64 - 2)))
    (by decide) hbody hsteps (by decide +kernel)
  obtain ⟨-, -, hcopied, -⟩ := unroll_exact (x := 2.75) (by decide) hbody hsteps
    (by decide +kernel)
  rw [hlarge] at hrefused
  rw [hsmall] at hcopied
  have htwo : ⌊(2.75 : ℚ)⌋₊ = 2 := by norm_num [Nat.floor_eq_iff]
  rw [htwo] at hcopied
  have hfloor : ⌊(2 ^ 64 : ℚ)⌋₊ = 2 ^ 64 := by exact_mod_cast Nat.floor_natCast (R := ℚ) (2 ^ 64)
  rw [hfloor] at hrefused
  refine ⟨?_, hcopied (by norm_num) (by decide)⟩
  rw [show unreadGhost.chain _ = unreadGhost.chainWithin _ _ from rfl, hwords]
  exact (hrefused _ _).mpr ⟨⟨rfl, rfl⟩, by norm_num, by decide⟩

end Workspace

end BlockSteps

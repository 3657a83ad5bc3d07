import Mathlib
import BlockSteps.Proofs.Compile.Origins
import BlockSteps.Proofs.Compile.ReadSlots
import BlockSteps.Proofs.Compile.Validation

/-!
# Turning a loop off

A loop that is run compiles its body; a loop that is not run checks it.  Compiling stops at the
first error of any kind and looks at nothing that is not read.  The check looks at nothing but types
and references, and at all of these.  This module compares the two on one body.

**What compiling rejects for its structure, the check rejects**
(`exists_structural_of_unroll_idle`).  An unknown type or a dangling reference that stops a chain
belongs to a block that can be reached from the head of the chain, and such a block does not pass
the check.  Another one may be named: the check goes through the body in another order, and values
do not stop it.

**The converse fails**, and for one reason only.  A body can compile with a dangling reference in an
input that its block does not read; turned off, the loop is rejected for it
(`unroll_idle_rejected_extraInputs`).  If a loop compiles for some count, then turned off it
compiles exactly if the references that compiling **skips** are in order (`unroll_idle_of_unroll`).
For this, a block of the body is `Settled` if it is compiled, or asked for its value, or if
everything below it is sound.  Every reference of a settled block leads to a settled block: what is
looked at was found, and what is skipped is sound by assumption.
-/

namespace BlockSteps

/-! ## Counts without turns -/

/-- No count, or one that is not at least one. -/
def Idle (count : Option Float) : Prop := ∀ x, count = some x → ¬ 1 ≤ x

theorem tripCount_of_idle {count : Option Float} (h : Idle count) : tripCount count = 0 := by
  cases count with
  | none => rfl
  | some x => exact if_neg (h x rfl)

/-! ## Errors of the structure -/

/-- The errors of types and references. -/
inductive CompileError.Structural : CompileError → Prop where
  /-- The type of a block is no tag. -/
  | unknownBlockType (type : String) (block : BlockId) : Structural (.unknownBlockType type block)
  /-- A reference leads nowhere. -/
  | danglingReference (origin target : BlockId) : Structural (.danglingReference origin target)

namespace Workspace

variable {ws : Workspace} {opts : Options} {limit : Nat} {head b c : Block}
  {count count' : Option Float}

theorem HeadsBody.found (h : ws.HeadsBody b head) : ws.Found head := by
  obtain ⟨id, -, hhead⟩ := h
  exact found_of_find? hhead

/-- The check finds nothing but errors of the structure. -/
theorem structural_of_validateWithin {bound : Nat} {pending : List Block} {seen : List BlockId}
    {e : CompileError} (h : ws.validateWithin bound pending seen = .error (.rejected e)) :
    e.Structural := by
  induction bound generalizing pending seen with
  | zero => cases h
  | succ bound ih =>
    rcases pending with _ | ⟨b, pending⟩
    · cases h
    rw [validateWithin] at h
    split at h
    · exact ih h
    rcases bind_eq_error_iff.mp h with h | ⟨k, -, h⟩
    · unfold Block.kind at h
      split at h
      · cases h
      · cases h
        exact .unknownBlockType b.type b.id
    rcases bind_eq_error_iff.mp h with h | ⟨children, -, h⟩
    · cases hresolve : ws.resolveAll b.id b.references with
      | ok children =>
        rw [hresolve] at h
        cases h
      | error e' =>
        rw [hresolve] at h
        cases h
        obtain ⟨id, -, -, rfl⟩ := resolveAll_eq_error hresolve
        exact .danglingReference b.id id
    · exact ih h

/-- Everything that can be reached from the block is sound. -/
def SoundBelow (ws : Workspace) (b : Block) : Prop :=
  ∀ c, Relation.ReflTransGen ws.RefersTo b c → ws.Sound c

theorem SoundBelow.of_refersTo (h : ws.SoundBelow b) (hbc : ws.RefersTo b c) : ws.SoundBelow c :=
  fun d hcd => h d (.head hbc hcd)

theorem soundBelow_of_validate (hhead : ws.Found head) (h : ws.validate head = .ok ()) :
    ws.SoundBelow head := fun _ => sound_of_validate hhead h

/-- The check passes if everything below the head is sound, and else it finds an error of the
structure there. -/
theorem validate_cases (limit : Nat) (hhead : ws.Found head) :
    (ws.SoundBelow head ∧ ws.validate head = .ok ()) ∨
      ¬ ws.SoundBelow head ∧ ∃ e, ws.validate head = .error (.rejected e) ∧ e.Structural ∧
        e.ArisesIn ws limit (Relation.ReflTransGen ws.RefersTo head) := by
  have hmem := mem_of_find? hhead
  rcases hcheck : ws.validate head with (e | _) | _
  · refine .inr ⟨fun hsound => ?_, e, rfl, structural_of_validateWithin hcheck, ?_⟩
    · cases hcheck.symm.trans (validate_eq_ok_of_sound hmem hsound)
    · exact (closed_reaches ws head).failsIn_validate .refl e hcheck
  · exact absurd hcheck (validate_ne_endless hmem)
  · exact .inl ⟨soundBelow_of_validate hhead hcheck, rfl⟩

/-- An error of the structure arises only where some block is not sound. -/
theorem not_sound_of_arisesIn {region : Block → Prop} {e : CompileError}
    (he : e.ArisesIn ws limit region) (hstructural : e.Structural) :
    ∃ b, region b ∧ ¬ ws.Sound b := by
  cases hstructural with
  | unknownBlockType type block =>
    cases he with
    | @unknownBlockType b hb htag =>
      refine ⟨b, hb, fun hsound => ?_⟩
      obtain ⟨k, hk⟩ := hsound.registered
      exact htag k hk
  | danglingReference origin target =>
    cases he with
    | @danglingReference b id hb hid hnone =>
      refine ⟨b, hb, fun hsound => ?_⟩
      obtain ⟨c, hc⟩ := hsound.resolves target hid
      cases hnone.symm.trans hc

/-! ## Idle loops -/

/-- A loop without a body gives no steps, whatever its count. -/
theorem outcome_unroll_of_no_body (hbody : b.statements.get? Kind.bodySlot = none)
    {body : Block → Traced Failure (List Step)} :
    (ws.unroll limit body b count).outcome = .ok [] := by
  rw [outcome_unroll, unrollOutcome, hbody]

/-- An idle loop with a body gives no steps if the check of the body passes. -/
theorem outcome_unroll_of_idle (hbody : ws.HeadsBody b head) (hidle : Idle count)
    {body : Block → Traced Failure (List Step)} :
    (ws.unroll limit body b count).outcome = ws.validate head >>= fun _ => .ok [] := by
  obtain ⟨id, hid, hhead⟩ := hbody
  rw [outcome_unroll, unrollOutcome, hid, tripCount_of_idle hidle]
  dsimp only
  rw [resolve_eq_ok_iff.mpr hhead]
  rfl

/-- **A loop that is off hides no error of the structure.**  Whatever workspace and options: if the
chain of a body is rejected for an unknown type or a dangling reference, then the loop without turns
is rejected for an unknown type or a dangling reference, too, and that of a block that can be
reached from the head of the body. -/
theorem exists_structural_of_unroll_idle (hbody : ws.HeadsBody b head) {e : CompileError}
    (hchain : (ws.chain opts head).outcome = .error (.rejected e)) (hstructural : e.Structural)
    (hidle : Idle count) :
    ∃ e', (ws.unroll opts.maxSteps (ws.chain opts) b count).outcome = .error (.rejected e') ∧
      e'.Structural ∧
      e'.ArisesIn ws opts.maxSteps (Relation.ReflTransGen ws.RefersTo head) := by
  have harises : e.ArisesIn ws opts.maxSteps (Relation.ReflTransGen ws.RefersTo head) := by
    rw [outcome_chain] at hchain
    exact (closed_reaches ws head).failsIn_chainOutcome .refl e hchain
  obtain ⟨c, hreaches, hunsound⟩ := not_sound_of_arisesIn harises hstructural
  rw [outcome_unroll_of_idle hbody hidle]
  obtain ⟨hsound, -⟩ | ⟨-, e', hcheck, he'⟩ :=
    validate_cases opts.maxSteps hbody.found
  · exact absurd (hsound c hreaches) hunsound
  · exact ⟨e', by rw [hcheck]; rfl, he'⟩

/-- A loop whose body is a wait with an operand that is missing and a next block of an unknown type.
Compiling comes to the operand first, the check to the next block. -/
def twoFaults : Workspace where
  blocks := #[
    { id := "r", type := "controls_repeat_ext", statements := .ofList [("DO", "w")] },
    { id := "w", type := "wait_time_block", values := .ofList [("SECONDS", "n")],
      next := some "x" },
    { id := "n", type := "math_round", values := .ofList [("NUM", "ghost")] },
    { id := "x", type := "controls_if" }]

/-- The chain of the body is rejected for the missing operand, the loop for the unknown type. -/
theorem exists_structural_of_unroll_idle_twoFaults :
    (twoFaults.chain {} twoFaults.blocks[1]).outcome =
        .error (.rejected (.danglingReference "n" "ghost")) ∧
      (twoFaults.unroll 100000 (twoFaults.chain {}) twoFaults.blocks[0] (some 0.5)).outcome =
        .error (.rejected (.unknownBlockType "controls_if" "x")) ∧
      ∃ e, (twoFaults.unroll 100000 (twoFaults.chain {}) twoFaults.blocks[0] (some 0.5)).outcome =
          .error (.rejected e) ∧ e.Structural ∧
        e.ArisesIn twoFaults 100000
          (Relation.ReflTransGen twoFaults.RefersTo twoFaults.blocks[1]) := by
  have hbody : twoFaults.HeadsBody twoFaults.blocks[0] twoFaults.blocks[1] :=
    ⟨"w", by decide +kernel, by decide +kernel⟩
  have hchain : (twoFaults.chain {} twoFaults.blocks[1]).outcome =
      .error (.rejected (.danglingReference "n" "ghost")) := by decide +kernel
  have hidle : Idle (some 0.5) := by
    rintro _ ⟨⟩
    decide +kernel
  exact ⟨hchain, by decide +kernel,
    exists_structural_of_unroll_idle hbody hchain (.danglingReference "n" "ghost") hidle⟩

/-! ## What compiling skips -/

/-- The references that are looked at where the given blocks are followed. -/
inductive LooksAt (ws : Workspace) (followed : Block → Prop) (b : Block) (id : BlockId) : Prop where
  /-- The next link of a block in a chain. -/
  | next (hb : followed b) (hnext : b.next = some id)
  /-- The body of a loop in a chain: it is compiled or checked. -/
  | body {l : Loop} (hb : followed b) (hkind : b.kind = .ok (.loop l))
      (hbody : b.statements.get? Kind.bodySlot = some id)
  /-- A value slot that is read. -/
  | value {slot : String} (hreads : ws.Reads followed b slot) (hid : b.values.get? slot = some id)

/-- The block refers to the id, and the compiler comes to the block and does not look at the
reference: it stands in a slot that is not read, or behind a block in a value slot. -/
structure Skips (ws : Workspace) (followed : Block → Prop) (b : Block) (id : BlockId) : Prop where
  /-- The compiler comes to the block. -/
  visited : followed b ∨ ws.Asked followed b
  /-- The block refers to the id. -/
  refers : id ∈ b.references
  /-- The reference is not looked at. -/
  unseen : ¬ ws.LooksAt followed b id

/-- What can be said of a block below the head of a body that compiles. -/
inductive Settled (ws : Workspace) (followed : Block → Prop) (b : Block) : Prop where
  /-- It is in a chain that is followed. -/
  | followed (h : followed b)
  /-- It is asked for its value. -/
  | asked (h : ws.Asked followed b)
  /-- Everything below it is sound. -/
  | sound (h : ws.SoundBelow b)

section Followed

variable {followed : Block → Prop} (hwalked : ∀ b, followed b → ws.Walked opts b)
  (hfollows : ∀ b c, followed b → ws.Follows b c → followed c)
  (hskips : ∀ b id, ws.Skips followed b id → ∃ c, ws.find? id = some c ∧ ws.SoundBelow c)
include hwalked

theorem Settled.kind (h : ws.Settled followed b) : ∃ k, b.kind = .ok k := by
  cases h with
  | followed h => exact (hwalked b h).kind
  | asked h =>
    obtain ⟨e, hkind, -⟩ := (h.valued hwalked).expression
    exact ⟨.expression e, hkind⟩
  | sound h => exact (h b .refl).kind

include hfollows

theorem LooksAt.exists_settled {id : BlockId} (h : ws.LooksAt followed b id) :
    ∃ c, ws.find? id = some c ∧ ws.Settled followed c := by
  cases h with
  | next hb hnext =>
    obtain ⟨c, hc, -⟩ := (hwalked b hb).exists_next hnext
    exact ⟨c, hc, .followed (hfollows b c hb (.next ⟨id, hnext, hc⟩))⟩
  | body hb hkind hbody =>
    obtain ⟨c, count, hc, hcount, ⟨-, hcheck⟩ | ⟨hturns, -⟩⟩ :=
      (hwalked b hb).exists_body hkind hbody
    · exact ⟨c, hc, .sound (soundBelow_of_validate (found_of_find? hc) hcheck)⟩
    · exact ⟨c, hc, .followed (hfollows b c hb (.body hkind ⟨id, hbody, hc⟩ hcount hturns))⟩
  | @value slot hreads hid =>
    obtain ⟨c, hc, -⟩ := hreads.slotValued hwalked id hid
    exact ⟨c, hc, .asked ⟨b, slot, hreads, id, hid, hc⟩⟩

include hskips

/-- Every reference of a settled block leads to a settled block. -/
theorem Settled.exists_settled (h : ws.Settled followed b) {id : BlockId}
    (hid : id ∈ b.references) : ∃ c, ws.find? id = some c ∧ ws.Settled followed c := by
  have hvisited : (followed b ∨ ws.Asked followed b) →
      ∃ c, ws.find? id = some c ∧ ws.Settled followed c := by
    intro hvisited
    by_cases hlooks : ws.LooksAt followed b id
    · exact hlooks.exists_settled hwalked hfollows
    · obtain ⟨c, hc, hsound⟩ := hskips b id ⟨hvisited, hid, hlooks⟩
      exact ⟨c, hc, .sound hsound⟩
  cases h with
  | followed h => exact hvisited (.inl h)
  | asked h => exact hvisited (.inr h)
  | sound h =>
    obtain ⟨c, hc⟩ := (h b .refl).resolves id hid
    exact ⟨c, hc, .sound (h.of_refersTo ⟨id, hid, hc⟩)⟩

/-- So everything below a settled block is settled, and sound. -/
theorem Settled.soundBelow (h : ws.Settled followed b) : ws.SoundBelow b := by
  intro c hreaches
  have hsettled : ws.Settled followed c := by
    induction hreaches with
    | refl => exact h
    | tail _ hcd ih =>
      obtain ⟨id, hid, hd⟩ := hcd
      obtain ⟨d, hd', hsettled⟩ := ih.exists_settled hwalked hfollows hskips hid
      cases hd.symm.trans hd'
      exact hsettled
  obtain ⟨k, hk⟩ := hsettled.kind hwalked
  refine ⟨⟨k, Block.kind_eq_ok_iff.mp hk⟩, fun id hid => ?_⟩
  obtain ⟨d, hd, -⟩ := hsettled.exists_settled hwalked hfollows hskips hid
  exact ⟨d, hd⟩

end Followed

/-! ## Loops that compile, turned off -/

/-- The blocks to which links are followed from the head of a body. -/
abbrev FollowedFrom (ws : Workspace) (head : Block) : Block → Prop :=
  Relation.ReflTransGen ws.Follows head

/-- What compiling from the head skips is there, with everything below it sound. -/
def SkipsSound (ws : Workspace) (head : Block) : Prop :=
  ∀ b id, ws.Skips (ws.FollowedFrom head) b id → ∃ c, ws.find? id = some c ∧ ws.SoundBelow c

theorem Walked.followedFrom (hhead : ws.Walked opts head) (h : ws.FollowedFrom head b) :
    ws.Walked opts b := by
  induction h with
  | refl => exact hhead
  | tail _ hbc ih => exact ih.follows hbc

theorem FollowedFrom.reaches (h : ws.FollowedFrom head b) :
    Relation.ReflTransGen ws.RefersTo head b :=
  Relation.ReflTransGen.mono (fun _ _ => Follows.refersTo) _ _ h

theorem Reads.reaches {slot : String} (h : ws.Reads (ws.FollowedFrom head) b slot) :
    Relation.ReflTransGen ws.RefersTo head b := by
  induction h with
  | param hb => exact FollowedFrom.reaches hb
  | operand _ hattached _ _ ih => exact ih.tail hattached.refersTo

/-- What is skipped is below the head. -/
theorem Skips.reaches {id : BlockId} (h : ws.Skips (ws.FollowedFrom head) b id) :
    Relation.ReflTransGen ws.RefersTo head b := by
  rcases h.visited with hb | ⟨a, slot, ha, hattached⟩
  · exact FollowedFrom.reaches hb
  · exact ha.reaches.tail hattached.refersTo

theorem SoundBelow.skipsSound (h : ws.SoundBelow head) : ws.SkipsSound head := by
  intro b id hskips
  obtain ⟨c, hc⟩ := (h b hskips.reaches).resolves id hskips.refers
  have hbelow : Relation.ReflTransGen ws.RefersTo head c :=
    hskips.reaches.tail ⟨id, hskips.refers, hc⟩
  exact ⟨c, hc, fun d hcd => h d (hbelow.trans hcd)⟩

/-- Below the head of a body that compiles, everything is sound as soon as this holds of what is
skipped. -/
theorem SkipsSound.soundBelow (h : ws.SkipsSound head) (hhead : ws.Walked opts head) :
    ws.SoundBelow head := by
  have hsettled : ws.Settled (ws.FollowedFrom head) head := .followed .refl
  exact hsettled.soundBelow (fun _ => hhead.followedFrom) (fun _ _ => .tail) h

/-- A loop that compiles has no body, or the body is checked or compiled. -/
theorem exists_body_of_unroll {ss : List Step}
    (h : (ws.unroll limit (ws.chain opts) b count).outcome = .ok ss) :
    b.statements.get? Kind.bodySlot = none ∨
      ∃ head, ws.HeadsBody b head ∧ (ws.validate head = .ok () ∨ ws.Walked opts head) := by
  rw [outcome_unroll, unrollOutcome] at h
  rcases hid : b.statements.get? Kind.bodySlot with _ | id
  · exact .inl rfl
  rw [hid] at h
  obtain ⟨head, hhead, h⟩ := bind_eq_ok_iff.mp h
  rw [checked_eq_ok_iff, resolve_eq_ok_iff] at hhead
  refine .inr ⟨head, ⟨id, hid, hhead⟩, ?_⟩
  split at h
  · obtain ⟨_, hcheck, -⟩ := bind_eq_ok_iff.mp h
    exact .inl hcheck
  · obtain ⟨steps, hsteps, -⟩ := bind_eq_ok_iff.mp h
    rw [outcome_chain] at hsteps
    exact .inr (walked_of_chainOutcome hsteps)

/-- **What turning a loop off can break.**  A loop that compiles with some count compiles without
turns, and gives no steps, exactly if each reference that compiling its body skips leads to a block
with everything below it sound.  If not, then it is rejected for an unknown type or a dangling
reference, and for nothing else. -/
theorem unroll_idle_of_unroll {ss : List Step}
    (hcompiles : (ws.unroll opts.maxSteps (ws.chain opts) b count).outcome = .ok ss)
    (hidle : Idle count') :
    ((ws.unroll opts.maxSteps (ws.chain opts) b count').outcome = .ok [] ↔
      ∀ head, ws.HeadsBody b head → ws.SkipsSound head) ∧
    ((ws.unroll opts.maxSteps (ws.chain opts) b count').outcome ≠ .ok [] →
      ∃ e, (ws.unroll opts.maxSteps (ws.chain opts) b count').outcome = .error (.rejected e) ∧
        e.Structural) := by
  obtain hnone | ⟨head, hbody, hhead⟩ := exists_body_of_unroll hcompiles
  · rw [outcome_unroll_of_no_body hnone]
    refine ⟨⟨fun _ head hbody => ?_, fun _ => rfl⟩, fun h => absurd rfl h⟩
    obtain ⟨id, hid, -⟩ := hbody
    cases hnone.symm.trans hid
  have hsound : ws.SkipsSound head → ws.SoundBelow head := by
    rcases hhead with hcheck | hwalked
    · exact fun _ => soundBelow_of_validate hbody.found hcheck
    · exact fun h => h.soundBelow hwalked
  have hheads : (∀ c, ws.HeadsBody b c → ws.SkipsSound c) ↔ ws.SkipsSound head :=
    ⟨fun h => h head hbody, fun h c hc => hbody.unique hc ▸ h⟩
  rw [hheads, outcome_unroll_of_idle hbody hidle]
  obtain ⟨hbelow, hcheck⟩ | ⟨hbelow, e, hcheck, hstructural, -⟩ :=
    validate_cases opts.maxSteps hbody.found
  · rw [hcheck]
    exact ⟨⟨fun _ => hbelow.skipsSound, fun _ => rfl⟩, fun h => absurd rfl h⟩
  · rw [hcheck]
    exact ⟨⟨nofun, fun h => absurd (hsound h) hbelow⟩, fun _ => ⟨e, rfl, hstructural⟩⟩

/-- Two loops over a wait with an input that is not read.  In the first body nothing is there for
it, in the second a number that does not spell one. -/
def extraInputs : Workspace where
  blocks := #[
    { id := "r", type := "controls_repeat_ext", statements := .ofList [("DO", "w")] },
    { id := "w", type := "wait_time_block", values := .ofList [("EXTRA", "ghost")] },
    { id := "q", type := "controls_repeat_ext", statements := .ofList [("DO", "v")] },
    { id := "v", type := "wait_time_block", values := .ofList [("EXTRA", "n")] },
    { id := "n", type := "math_number", fields := .ofList [("NUM", .text "many")] }]

/-- The step of a wait that was copied once. -/
def waitOnce (id : BlockId) : Step :=
  { id := id, stepName := "Wait Time", mainFunc := "wait_time",
    mainParams := .ofList [("seconds", .number 1)], iteration := [0] }

theorem idle_zero : Idle (some 0) := by
  rintro _ ⟨⟩
  decide +kernel

/-- The first loop compiles with one turn, and without turns it is rejected. -/
theorem unroll_idle_rejected_extraInputs :
    (1 : Float) ≤ 1 ∧ Idle (some 0) ∧
      (extraInputs.unroll 100000 (extraInputs.chain {}) extraInputs.blocks[0] (some 1)).outcome =
        .ok [waitOnce "w"] ∧
      (extraInputs.unroll 100000 (extraInputs.chain {}) extraInputs.blocks[0] (some 0)).outcome =
        .error (.rejected (.danglingReference "w" "ghost")) :=
  ⟨by decide +kernel, idle_zero, by decide +kernel, by decide +kernel⟩

/-- Of the two loops, which compile alike with one turn, the second can be turned off. -/
theorem unroll_idle_of_unroll_extraInputs :
    (extraInputs.unroll (Options.maxSteps {}) (extraInputs.chain {}) extraInputs.blocks[0]
        (some 1)).outcome = .ok [waitOnce "w"] ∧
      (extraInputs.unroll (Options.maxSteps {}) (extraInputs.chain {}) extraInputs.blocks[2]
        (some 1)).outcome = .ok [waitOnce "v"] ∧
      Idle (some 0) ∧ ¬ extraInputs.SkipsSound extraInputs.blocks[1] ∧
      extraInputs.SkipsSound extraInputs.blocks[3] := by
  have hr : (extraInputs.unroll (Options.maxSteps {}) (extraInputs.chain {}) extraInputs.blocks[0]
      (some 1)).outcome = .ok [waitOnce "w"] := by decide +kernel
  have hq : (extraInputs.unroll (Options.maxSteps {}) (extraInputs.chain {}) extraInputs.blocks[2]
      (some 1)).outcome = .ok [waitOnce "v"] := by decide +kernel
  have hw : extraInputs.HeadsBody extraInputs.blocks[0] extraInputs.blocks[1] :=
    ⟨"w", by decide +kernel, by decide +kernel⟩
  have hv : extraInputs.HeadsBody extraInputs.blocks[2] extraInputs.blocks[3] :=
    ⟨"v", by decide +kernel, by decide +kernel⟩
  have hroff := (unroll_idle_of_unroll hr idle_zero).1
  have hqoff := (unroll_idle_of_unroll hq idle_zero).1
  refine ⟨hr, hq, idle_zero, fun hsound => ?_, hqoff.mp (by decide +kernel) _ hv⟩
  have hoff := hroff.mpr fun head hhead => hw.unique hhead ▸ hsound
  revert hoff
  decide +kernel

end Workspace

end BlockSteps

import Mathlib
import BlockSteps.Proofs.Compile.Origins

/-!
# What an error says is so

An error names a block and says something about it.  Some errors name the block that asks for a
value, others the block that was to give it, and the worklist of an idle loop body names blocks that
no step comes from.  In all cases the block is one that references lead to from a top block
(`Reached`), and what the error says of it can be read off the workspace (`CompileError.HoldsOf`).

`Truthful` says this of a part of a compilation.  The reached blocks are a region that references do
not lead out of (`closed_reached`), and an error that arises there says what is so
(`exists_holdsOf_of_arisesIn`).

**Main statement.**  `holdsOf_of_compile`: it has no condition on the workspace, which may have
circles, dangling references and types of no catalog.
-/

namespace BlockSteps

namespace Workspace

variable {ws : Workspace} {b c : Block}

/-! ## Reached blocks -/

/-- References lead from a top block to the block. -/
def Reached (ws : Workspace) (b : Block) : Prop :=
  ∃ top ∈ ws.topIds, ∃ head, ws.find? top = some head ∧ Relation.ReflTransGen ws.RefersTo head b

theorem Reached.refersTo (h : ws.Reached b) (hbc : ws.RefersTo b c) : ws.Reached c := by
  obtain ⟨top, htop, head, hhead, hreaches⟩ := h
  exact ⟨top, htop, head, hhead, hreaches.tail hbc⟩

/-- A reached block is the one that its id finds. -/
theorem Reached.find? (h : ws.Reached b) : ws.find? b.id = some b := by
  have hfound : ∀ {id}, ws.find? id = some b → ws.find? b.id = some b := fun h => by
    rwa [id_of_find? h]
  obtain ⟨top, -, head, hhead, hreaches⟩ := h
  rcases hreaches.cases_tail with rfl | ⟨a, -, id, -, hid⟩
  · exact hfound hhead
  · exact hfound hid

end Workspace

/-! ## What errors say -/

/-- What an error says of the block at which it was found, under a limit on the number of steps. -/
def CompileError.HoldsOf (ws : Workspace) (limit : Nat) (b : Block) : CompileError → Prop
  | .unknownBlockType type _ => b.type = type ∧ ∀ k : Kind, k.tag ≠ type
  | .malformedLiteral _ field value =>
    (∃ v, b.fields.get? field = some v ∧ v.shown = value) ∨
      ∃ c, ws.Attached b field c ∧ ws.value c = .ok (.text value)
  | .nonFiniteValue _ slot =>
    (b.kind = .ok (.expression .constant) ∧ slot = "CONSTANT") ∨
      ((b.kind = .ok (.expression .arithmetic) ∨ b.kind = .ok (.expression .single)) ∧
        slot = "OP")
  | .danglingReference _ target => target ∈ b.references ∧ ws.find? target = none
  | .expectedValueBlock _ type =>
    b.type = type ∧ (∃ k, b.kind = .ok k ∧ k.category ≠ .value) ∧
      ∃ c slot, ws.Reached c ∧ ws.Attached c slot b
  | .duplicateBlockId _ => False
  | .stepLimitExceeded most _ => most = limit

namespace Workspace

variable {ws : Workspace} {limit : Nat} {α : Type}

/-- If a part of a compilation refuses the workspace, then for what it says of a reached block. -/
def Truthful (ws : Workspace) (limit : Nat) (x : Except Failure α) : Prop :=
  ∀ e, x = .error (.rejected e) → ∃ b, ws.Reached b ∧ b.id = e.blockId ∧ e.HoldsOf ws limit b

theorem closed_reached (ws : Workspace) : ws.Closed ws.Reached := fun _ _ => Reached.refersTo

/-- An error that arises at a reached block says of it what is so. -/
theorem exists_holdsOf_of_arisesIn {e : CompileError} (h : e.ArisesIn ws limit ws.Reached) :
    ∃ b, ws.Reached b ∧ b.id = e.blockId ∧ e.HoldsOf ws limit b := by
  cases h with
  | unknownBlockType hb htag => exact ⟨_, hb, rfl, rfl, htag⟩
  | danglingReference hb hid hnone => exact ⟨_, hb, rfl, hid, hnone⟩
  | field hb hv => exact ⟨_, hb, rfl, .inl ⟨_, hv, rfl⟩⟩
  | attachedText hb hc hs => exact ⟨_, hb, rfl, .inr ⟨_, hc, hs⟩⟩
  | constant hb hkind => exact ⟨_, hb, rfl, .inl ⟨hkind, rfl⟩⟩
  | operation hb hkind => exact ⟨_, hb, rfl, .inr ⟨hkind, rfl⟩⟩
  | expectedValueBlock hb hc hkind hcategory =>
    exact ⟨_, hb.refersTo hc.refersTo, rfl, rfl, ⟨_, hkind, hcategory⟩, _, _, hb, hc⟩
  | stepLimitExceeded hb => exact ⟨_, hb, rfl, rfl⟩

theorem FailsIn.truthful {x : Except Failure α} (h : ws.FailsIn limit ws.Reached x) :
    ws.Truthful limit x := fun e he => exists_holdsOf_of_arisesIn (h e he)

/-- A top id is the id of a block, so the workspace itself is never named as the origin. -/
theorem truthful_chainsOutcome {opts : Options} {heads : List BlockId}
    (hheads : ∀ id ∈ heads, id ∈ ws.topIds) (done : Nat) :
    ws.Truthful opts.maxSteps (ws.chainsOutcome opts done heads) := by
  refine (ws.closed_reached.failsIn_chainsOutcome (fun id hid => ?_) done).truthful
  have htop := hheads id hid
  obtain ⟨head, hfound⟩ := exists_find?_of_mem_ids (mem_topIds.mp htop).1
  exact ⟨head, hfound, id, htop, head, hfound, .refl⟩

/-- **Errors are truthful.**  Whatever a workspace is refused for, the block that the error names is
a block of the workspace, it is reached by references from a top block, and what the error says of
it holds. -/
theorem holdsOf_of_compile {opts : Options} {e : CompileError}
    (h : ws.compile opts = .error (.rejected e)) :
    ∃ b, ws.find? e.blockId = some b ∧ ws.Reached b ∧ e.HoldsOf ws opts.maxSteps b := by
  have herror : ws.chainsOutcome opts 0 ws.topIds = .error (.rejected e) := by
    rw [compile, compileFrom_eq] at h
    cases hsteps : ws.chainsOutcome opts 0 ws.topIds with
    | ok steps =>
      rw [hsteps] at h
      cases h
    | error f =>
      rw [hsteps] at h
      cases h
      rfl
  obtain ⟨b, hb, hid, he⟩ := truthful_chainsOutcome (fun _ h => h) 0 e herror
  exact ⟨b, hid ▸ hb.find?, hb, he⟩

/-- A laser whose power is a rounded text that spells no number. -/
def fastLaser : Workspace where
  blocks := #[
    { id := "p", type := "set_laser_power_block", values := .ofList [("POWER", "r")] },
    { id := "r", type := "math_round", values := .ofList [("NUM", "t")] },
    { id := "t", type := "text", fields := .ofList [("TEXT", .text "fast")] }]

/-- The text is refused at the block that rounds it. -/
theorem holdsOf_of_compile_fastLaser :
    fastLaser.compile {} = .error (.rejected (.malformedLiteral "r" "NUM" "fast")) ∧
      ∃ b, fastLaser.find? "r" = some b ∧ fastLaser.Reached b ∧
        (CompileError.malformedLiteral "r" "NUM" "fast").HoldsOf fastLaser defaultMaxSteps b :=
  have h : fastLaser.compile {} = .error (.rejected (.malformedLiteral "r" "NUM" "fast")) := by
    decide +kernel
  ⟨h, holdsOf_of_compile h⟩

end Workspace

end BlockSteps

import Mathlib
import BlockSteps.Proofs.Compile.Parts

/-!
# Checking bodies that are not run

The body of a loop that is not run is not compiled.  It is checked: from its first block on,
everything that can be reached by references of any kind must be of the catalog and must refer to
blocks that are there (`Sound`).

The check keeps a stack of pending blocks and a list of the ids that it has seen.  A block may be
pending many times, and references may lead in circles; what counts is that a block puts what it
refers to on the stack only once, when it is first seen.

**Nothing is missed.**  A block that was seen before is dropped from the stack, and what it refers
to with it.  This is right because of what holds between any two turns (`Explored`): the seen blocks
are sound, and whatever they refer to has been seen or is still pending.  When nothing is pending
any more, the seen blocks are closed under references.

**Main statement.**  `validate_eq_ok_iff_sound`: the check of any block of any workspace ends, and
it passes exactly if everything that can be reached is sound.
-/

namespace BlockSteps

/-- A block is of a kind exactly if its type is the tag of the kind. -/
theorem Block.kind_eq_ok_iff {b : Block} {k : Kind} : b.kind = .ok k ↔ k.tag = b.type := by
  rw [← Kind.ofTag?_eq_some_iff]
  unfold kind
  cases Kind.ofTag? b.type with
  | none => simp
  | some j => simp

namespace Workspace

/-! ## Sound blocks -/

/-- The type of the block is the tag of a kind, and every reference has its block. -/
structure Sound (ws : Workspace) (b : Block) : Prop where
  /-- The type is registered. -/
  registered : ∃ k : Kind, k.tag = b.type
  /-- No reference dangles. -/
  resolves : ∀ id ∈ b.references, ∃ c, ws.find? id = some c

variable {ws : Workspace} {b c : Block}

theorem Sound.kind (h : ws.Sound b) : ∃ k, b.kind = .ok k := by
  obtain ⟨k, hk⟩ := h.registered
  exact ⟨k, Block.kind_eq_ok_iff.mpr hk⟩

/-- All references of a sound block can be followed together. -/
theorem Sound.resolveAll (h : ws.Sound b) : ∃ cs, ws.resolveAll b.id b.references = .ok cs := by
  have hfound : ∀ o ∈ b.references.map ws.find?, o.isSome := by
    simpa [Option.isSome_iff_exists] using h.resolves
  refine ⟨b.references.filterMap ws.find?, resolveAll_eq_ok_iff.mpr ?_⟩
  rw [List.map_filterMap_some_eq_filter_map_isSome]
  exact (List.filter_eq_self.mpr hfound).symm

/-- What a turn of the check finds out about a block that it has not seen. -/
theorem sound_of_resolveAll {k : Kind} {cs : List Block} (hk : b.kind = .ok k)
    (hcs : ws.resolveAll b.id b.references = .ok cs) : ws.Sound b := by
  refine ⟨⟨k, Block.kind_eq_ok_iff.mp hk⟩, fun id hid => ?_⟩
  have hmem : ws.find? id ∈ cs.map some := by
    rw [← resolveAll_eq_ok_iff.mp hcs]
    exact List.mem_map_of_mem hid
  obtain ⟨c, -, hc⟩ := List.mem_map.mp hmem
  exact ⟨c, hc.symm⟩

/-! ## Between two turns -/

/-- The block is the one that its id finds. -/
def Found (ws : Workspace) (b : Block) : Prop := ws.find? b.id = some b

theorem found_of_find? {id : BlockId} (h : ws.find? id = some b) : ws.Found b := by
  rwa [Found, id_of_find? h]

/-- Two blocks that are found under one id are one block. -/
theorem Found.eq (hb : ws.Found b) (hc : ws.Found c) (hid : b.id = c.id) : b = c := by
  rw [Found, hid] at hb
  exact Option.some.inj (hb.symm.trans hc)

/-- What holds of the stack and the seen ids between two turns of the check. -/
structure Explored (ws : Workspace) (pending : List Block) (seen : List BlockId) : Prop where
  /-- A block that was seen is sound. -/
  sound : ∀ b, ws.Found b → b.id ∈ seen → ws.Sound b
  /-- What it refers to was seen or is pending. -/
  closed : ∀ b c, ws.Found b → b.id ∈ seen → ws.RefersTo b c → c.id ∈ seen ∨ c ∈ pending

namespace Explored

variable {pending : List Block} {seen : List BlockId}

/-- In the beginning nothing was seen. -/
theorem start (ws : Workspace) (pending : List Block) : ws.Explored pending [] := ⟨nofun, nofun⟩

/-- A block that was seen before need not be pending. -/
theorem drop (h : ws.Explored (b :: pending) seen) (hseen : b.id ∈ seen) :
    ws.Explored pending seen := by
  refine ⟨h.sound, fun a c ha hmem hac => ?_⟩
  rcases h.closed a c ha hmem hac with hc | hc
  · exact .inl hc
  · rcases List.mem_cons.mp hc with rfl | hc
    · exact .inl hseen
    · exact .inr hc

/-- A sound block is seen, and what it refers to takes its place on the stack. -/
theorem visit (h : ws.Explored (b :: pending) seen) (hb : ws.Found b) (hsound : ws.Sound b)
    {children : List Block} (hchildren : ws.resolveAll b.id b.references = .ok children) :
    ws.Explored (children.reverse ++ pending) (b.id :: seen) := by
  constructor
  · intro a ha hmem
    rcases List.mem_cons.mp hmem with hid | hmem
    · rwa [ha.eq hb hid]
    · exact h.sound a ha hmem
  · intro a c ha hmem hac
    rcases List.mem_cons.mp hmem with hid | hmem
    · rw [ha.eq hb hid] at hac
      have hc : c ∈ children := (mem_resolveAll_iff hchildren).mpr hac
      exact .inr (List.mem_append_left _ (List.mem_reverse.mpr hc))
    · rcases h.closed a c ha hmem hac with hc | hc
      · exact .inl (List.mem_cons_of_mem _ hc)
      · rcases List.mem_cons.mp hc with rfl | hc
        · exact .inl List.mem_cons_self
        · exact .inr (List.mem_append_right _ hc)

/-- When nothing is pending, everything that can be reached from a seen block is sound. -/
theorem sound_of_reaches (h : ws.Explored [] seen) (hb : ws.Found b) (hseen : b.id ∈ seen)
    (hreaches : Relation.ReflTransGen ws.RefersTo b c) : ws.Sound c := by
  have hfinal : ws.Found c ∧ c.id ∈ seen := by
    induction hreaches with
    | refl => exact ⟨hb, hseen⟩
    | tail _ hrefers ih =>
      obtain ⟨hfound, hmem⟩ := ih
      have hseen := (h.closed _ _ hfound hmem hrefers).resolve_right List.not_mem_nil
      obtain ⟨id, -, hid⟩ := hrefers
      exact ⟨found_of_find? hid, hseen⟩
  exact h.sound c hfinal.1 hfinal.2

end Explored

/-! ## The check -/

/-- A check that passes ends with nothing pending, and it has seen what was pending before. -/
theorem explored_of_validateWithin {bound : Nat} {pending : List Block} {seen : List BlockId}
    (hpending : ∀ b ∈ pending, ws.Found b) (hexplored : ws.Explored pending seen)
    (h : ws.validateWithin bound pending seen = .ok ()) :
    ∃ final, ws.Explored [] final ∧ seen ⊆ final ∧ ∀ b ∈ pending, b.id ∈ final := by
  induction bound generalizing pending seen with
  | zero => cases h
  | succ bound ih =>
    cases pending with
    | nil => exact ⟨seen, hexplored, List.Subset.refl seen, nofun⟩
    | cons b pending =>
      rw [List.forall_mem_cons] at hpending
      rw [validateWithin] at h
      split at h
      · rename_i hseen
        have hseen : b.id ∈ seen := List.contains_iff_mem.mp hseen
        obtain ⟨final, hfinal, hsubset, hall⟩ := ih hpending.2 (hexplored.drop hseen) h
        refine ⟨final, hfinal, hsubset, ?_⟩
        rw [List.forall_mem_cons]
        exact ⟨hsubset hseen, hall⟩
      · obtain ⟨k, hk, h⟩ := bind_eq_ok_iff.mp h
        obtain ⟨children, hchildren, h⟩ := bind_eq_ok_iff.mp h
        have hk := checked_eq_ok_iff.mp hk
        have hchildren := checked_eq_ok_iff.mp hchildren
        have hsound := sound_of_resolveAll hk hchildren
        have hfound : ∀ c ∈ children.reverse ++ pending, ws.Found c := by
          intro c hc
          rcases List.mem_append.mp hc with hc | hc
          · obtain ⟨id, -, hid⟩ := (mem_resolveAll_iff hchildren).mp (List.mem_reverse.mp hc)
            exact found_of_find? hid
          · exact hpending.2 c hc
        obtain ⟨final, hfinal, hsubset, hall⟩ :=
          ih hfound (hexplored.visit hpending.1 hsound hchildren) h
        obtain ⟨hb, hseen⟩ := List.cons_subset.mp hsubset
        refine ⟨final, hfinal, hseen, ?_⟩
        rw [List.forall_mem_cons]
        exact ⟨hb, fun c hc => hall c (List.mem_append_right _ hc)⟩

/-- A check that comes to an end passes if everything that can be reached is sound. -/
theorem validateWithin_eq_ok_of_sound {bound : Nat} {pending : List Block} {seen : List BlockId}
    (hsound : ∀ b ∈ pending, ∀ c, Relation.ReflTransGen ws.RefersTo b c → ws.Sound c)
    (hends : ws.validateWithin bound pending seen ≠ .error .endless) :
    ws.validateWithin bound pending seen = .ok () := by
  induction bound generalizing pending seen with
  | zero => exact absurd rfl hends
  | succ bound ih =>
    cases pending with
    | nil => rfl
    | cons b pending =>
      rw [List.forall_mem_cons] at hsound
      obtain ⟨hb, hrest⟩ := hsound
      have hsound := hb b .refl
      obtain ⟨k, hk⟩ := hsound.kind
      obtain ⟨children, hchildren⟩ := hsound.resolveAll
      rw [validateWithin, hk, hchildren] at hends ⊢
      split at hends
      · rename_i hseen
        rw [if_pos hseen]
        exact ih hrest hends
      · rename_i hseen
        rw [if_neg hseen]
        refine ih (fun c hc => ?_) hends
        rcases List.mem_append.mp hc with hc | hc
        · intro d hcd
          have hbc := (mem_resolveAll_iff hchildren).mp (List.mem_reverse.mp hc)
          exact hb d (.head hbc hcd)
        · exact hrest c hc

/-- The check of a block of the workspace ends before its bound, and no greater bound gives another
answer. -/
theorem validateWithin_eq_validate {head : Block} (hhead : head ∈ ws.blocks) {bound : Nat}
    (hbound : ws.referenced.length + 1 < bound) :
    ws.validate head ≠ .error .endless ∧ ws.validateWithin bound [head] [] = ws.validate head := by
  have hsame : SameEnd (ws.validate head) (ws.validateWithin bound [head] []) := by
    apply (IsPart.refl ws).sameEnd_validateWithin
    · intro b hb
      rwa [List.mem_singleton.mp hb]
    · rw [unseen_nil, List.length_singleton]
      omega
    · rw [unseen_nil, List.length_singleton]
      omega
  exact ⟨hsame.ends, hsame.eq⟩

theorem validate_ne_endless {head : Block} (hhead : head ∈ ws.blocks) :
    ws.validate head ≠ .error .endless :=
  (validateWithin_eq_validate hhead (Nat.lt_succ_self _)).1

/-- The check passes if everything that can be reached is sound. -/
theorem validate_eq_ok_of_sound {head : Block} (hhead : head ∈ ws.blocks)
    (hsound : ∀ c, Relation.ReflTransGen ws.RefersTo head c → ws.Sound c) :
    ws.validate head = .ok () := by
  apply validateWithin_eq_ok_of_sound _ (validate_ne_endless hhead)
  intro b hb
  rwa [List.mem_singleton.mp hb]

/-- Everything that can be reached is sound if the check passes. -/
theorem sound_of_validate {head : Block} (hhead : ws.Found head)
    (h : ws.validate head = .ok ()) (hreaches : Relation.ReflTransGen ws.RefersTo head c) :
    ws.Sound c := by
  have hfound : ∀ b ∈ [head], ws.Found b := by
    intro b hb
    rwa [List.mem_singleton.mp hb]
  obtain ⟨final, hfinal, -, hall⟩ := explored_of_validateWithin hfound (.start ws [head]) h
  exact hfinal.sound_of_reaches hhead (hall head (List.mem_singleton_self head)) hreaches

/-- **The check of a body finds what is wrong with it, and nothing else.**  Whatever block of a
workspace it begins with, and whether references lead to one block from several places or in a
circle, the check ends: its bound does not stop it, and without a bound the answer would be the
same.  It passes exactly if this block and every other that references lead to has a registered type
and no dangling reference. -/
theorem validate_eq_ok_iff_sound {head : Block} (hhead : ws.find? head.id = some head) :
    ws.validate head ≠ .error .endless ∧
      (∀ bound, ws.referenced.length + 1 < bound →
        ws.validateWithin bound [head] [] = ws.validate head) ∧
      (ws.validate head = .ok () ↔
        ∀ b, Relation.ReflTransGen ws.RefersTo head b → ws.Sound b) := by
  have hmem : head ∈ ws.blocks := mem_of_find? hhead
  refine ⟨validate_ne_endless hmem, fun bound hbound => ?_, ⟨fun h b => ?_, fun h => ?_⟩⟩
  · exact (validateWithin_eq_validate hmem hbound).2
  · exact sound_of_validate hhead h
  · exact validate_eq_ok_of_sound hmem h

/-- A workspace with a circle through each kind of reference, and with a block that is referred to
from two places.  The literal of `m` is not looked at. -/
def circles : Workspace where
  blocks := #[
    { id := "r", type := "controls_repeat_ext", values := .ofList [("TIMES", "m")],
      statements := .ofList [("DO", "w")], next := some "r" },
    { id := "m", type := "math_round", fields := .ofList [("OP", .text "SIDEWAYS")],
      values := .ofList [("NUM", "m")] },
    { id := "w", type := "wait_time_block", values := .ofList [("SECONDS", "m")],
      next := some "s" },
    { id := "s", type := "controls_repeat", statements := .ofList [("DO", "r")] },
    { id := "x", type := "controls_if" }]

theorem validate_eq_ok_iff_sound_circles :
    circles.find? circles.blocks[0].id = some circles.blocks[0] ∧
      ∀ b, Relation.ReflTransGen circles.RefersTo circles.blocks[0] b → circles.Sound b := by
  have hhead : circles.find? circles.blocks[0].id = some circles.blocks[0] := by decide +kernel
  have hpasses : circles.validate circles.blocks[0] = .ok () := by decide +kernel
  exact ⟨hhead, (validate_eq_ok_iff_sound hhead).2.2.mp hpasses⟩

/-! ## Complete workspaces -/

/-- Every block is of the catalog and every reference has its block. -/
structure Complete (ws : Workspace) : Prop where
  /-- Every block is of the catalog. -/
  kind : ∀ b ∈ ws.blocks, ∃ k, b.kind = .ok k
  /-- Every reference has its block. -/
  resolves : ∀ b ∈ ws.blocks, ∀ id ∈ b.references, ∃ c, ws.find? id = some c

theorem Complete.sound (hws : ws.Complete) (hb : b ∈ ws.blocks) : ws.Sound b := by
  obtain ⟨k, hk⟩ := hws.kind b hb
  exact ⟨⟨k, Block.kind_eq_ok_iff.mp hk⟩, hws.resolves b hb⟩

end Workspace

end BlockSteps

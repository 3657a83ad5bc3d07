import Mathlib
import BlockSteps.Proofs.Compile.Parameters
import BlockSteps.Proofs.Compile.Parts
import BlockSteps.Proofs.Compile.ValueBounds

/-!
# Where errors come from

Errors are raised at a dozen places of a deep recursion.  Some name the block that asks for a value,
others the block that was to give it, and the check of an idle loop body names blocks that no step
comes from.  `CompileError.ArisesIn` lists them all, each with what must hold of a block of a
**region** for the error to arise there.  A region is any set of blocks that references do not lead
out of: all blocks of the workspace, those below a block, those below the top blocks.

`FailsIn` says of a part of a compilation that its errors arise in a region.  It is closed under
doing one thing after the other (`FailsIn.bind`), and there is one lemma for each function of the
compiler.  Nothing is said here of how far a run comes: a run that a bound stops has no error to
blame.

**Two facts about values.**

* A literal that is refused in a slot is what the attached block *resolves to*, and not only what
  was found for it at some depth: a longer way along value slots finds no other value
  (`valueWithin_mono`).
* A number that is taken from a slot is looked at again there, and passes always, since every value
  is finite.  So a value that is none is blamed on the block whose operation gave it, never on the
  block whose slot it is attached to.

**Main statements.**  `Closed.failsIn_chainOutcome` and `Closed.failsIn_chainsOutcome`.
-/

namespace BlockSteps

/-! ## Errors of literals and operations -/

/-- If the default names an operation, then only a field that is there can fail to name one. -/
theorem Block.operation_eq_error {α : Type} {b : Block} {field default : String}
    {byName : String → Option α} {e : CompileError} (hdefault : byName default ≠ none)
    (h : b.operation field byName default = .error e) :
    ∃ v, b.fields.get? field = some v ∧ e = .malformedLiteral b.id field v.shown := by
  unfold operation textField at h
  dsimp only at h
  split at h
  · cases h
  · rename_i hnone
    cases h
    cases hv : b.fields.get? field with
    | some v => exact ⟨v, rfl, rfl⟩
    | none =>
      rw [hv] at hnone
      exact absurd hnone hdefault

namespace Workspace

variable {ws : Workspace} {b c : Block}

/-! ## References that lead nowhere -/

theorem resolve_eq_error_iff {origin target : BlockId} {e : CompileError} :
    ws.resolve origin target = .error e ↔
      ws.find? target = none ∧ e = .danglingReference origin target := by
  unfold resolve
  cases ws.find? target with
  | none => simp [eq_comm]
  | some c => simp

theorem resolveAll_eq_error {origin : BlockId} {e : CompileError} :
    ∀ {ids : List BlockId}, ws.resolveAll origin ids = .error e →
      ∃ id ∈ ids, ws.find? id = none ∧ e = .danglingReference origin id
  | [], h => nomatch h
  | id :: rest, h => by
    rcases bind_eq_error_iff.mp h with h | ⟨c, -, h⟩
    · exact ⟨id, List.mem_cons_self, resolve_eq_error_iff.mp h⟩
    · rcases bind_eq_error_iff.mp h with h | ⟨cs, -, h⟩
      · obtain ⟨id, hid, h⟩ := resolveAll_eq_error h
        exact ⟨id, List.mem_cons_of_mem _ hid, h⟩
      · cases h

/-- What is found in a slot is the value of a block that is attached to it. -/
theorem exists_attached_of_inputBy {value : Block → Except Failure Scalar} {slot : String}
    {v : Scalar} (h : ws.inputBy value b slot = .ok (some v)) :
    ∃ c, ws.Attached b slot c ∧ value c = .ok v := by
  unfold inputBy at h
  split at h
  · cases h
  · rename_i id hid
    obtain ⟨c, hc, h⟩ := bind_eq_ok_iff.mp h
    obtain ⟨x, hx, h⟩ := bind_eq_ok_iff.mp h
    cases h
    exact ⟨c, ⟨id, hid, resolve_eq_ok_iff.mp (checked_eq_ok_iff.mp hc)⟩, hx⟩

end Workspace

/-! ## The errors of a region -/

/-- The errors that compiling can come to at the blocks of a region, under a limit on the number of
steps. -/
inductive CompileError.ArisesIn (ws : Workspace) (limit : Nat) (region : Block → Prop) :
    CompileError → Prop where
  /-- The type of a block is no tag. -/
  | unknownBlockType {b : Block} (hb : region b) (htag : ∀ k : Kind, k.tag ≠ b.type) :
      ArisesIn ws limit region (.unknownBlockType b.type b.id)
  /-- A reference of a block leads nowhere. -/
  | danglingReference {b : Block} {id : BlockId} (hb : region b) (hid : id ∈ b.references)
      (hnone : ws.find? id = none) : ArisesIn ws limit region (.danglingReference b.id id)
  /-- A field of a block is refused. -/
  | field {b : Block} {field : String} {v : FieldValue} (hb : region b)
      (hv : b.fields.get? field = some v) :
      ArisesIn ws limit region (.malformedLiteral b.id field v.shown)
  /-- A text is refused that is attached to a slot of a block. -/
  | attachedText {b c : Block} {slot s : String} (hb : region b) (hc : ws.Attached b slot c)
      (hs : ws.value c = .ok (.text s)) :
      ArisesIn ws limit region (.malformedLiteral b.id slot s)
  /-- The constant that a block names is no finite number. -/
  | constant {b : Block} (hb : region b) (hkind : b.kind = .ok (.expression .constant)) :
      ArisesIn ws limit region (.nonFiniteValue b.id "CONSTANT")
  /-- The operation of a block gives no finite number. -/
  | operation {b : Block} (hb : region b) (hkind : b.kind = .ok (.expression .arithmetic) ∨
      b.kind = .ok (.expression .single)) : ArisesIn ws limit region (.nonFiniteValue b.id "OP")
  /-- A block without a value is attached to a value slot of a block. -/
  | expectedValueBlock {b c : Block} {slot : String} {k : Kind} (hb : region b)
      (hc : ws.Attached b slot c) (hkind : c.kind = .ok k) (hcategory : k.category ≠ .value) :
      ArisesIn ws limit region (.expectedValueBlock c.id c.type)
  /-- The steps become too many at a block. -/
  | stepLimitExceeded {b : Block} (hb : region b) :
      ArisesIn ws limit region (.stepLimitExceeded limit b.id)

namespace Workspace

/-- References do not lead out of the region. -/
def Closed (ws : Workspace) (region : Block → Prop) : Prop :=
  ∀ b c, region b → ws.RefersTo b c → region c

variable {ws : Workspace} {limit : Nat} {region : Block → Prop} {b c : Block} {α β : Type}

theorem closed_blocks (ws : Workspace) : ws.Closed (· ∈ ws.blocks) := fun _ _ _ hbc => hbc.mem

theorem closed_reaches (ws : Workspace) (head : Block) :
    ws.Closed (Relation.ReflTransGen ws.RefersTo head) := fun _ _ hb hbc => hb.tail hbc

/-- If a part of a compilation refuses the workspace, then with an error of the region. -/
def FailsIn (ws : Workspace) (limit : Nat) (region : Block → Prop) (x : Except Failure α) : Prop :=
  ∀ e, x = .error (.rejected e) → e.ArisesIn ws limit region

section Runs

theorem failsIn_ok (a : α) : ws.FailsIn limit region (.ok a : Except Failure α) := nofun

theorem failsIn_pure (a : α) : ws.FailsIn limit region (pure a : Except Failure α) := nofun

theorem failsIn_endless : ws.FailsIn limit region (.error .endless : Except Failure α) := nofun

theorem failsIn_rejected {e : CompileError} (he : e.ArisesIn ws limit region) :
    ws.FailsIn limit region (.error (.rejected e) : Except Failure α) := by
  intro f hf
  cases hf
  exact he

theorem failsIn_checked {x : Except CompileError α}
    (h : ∀ e, x = .error e → e.ArisesIn ws limit region) : ws.FailsIn limit region (checked x) := by
  rcases x with e | a
  · exact failsIn_rejected (h e rfl)
  · exact failsIn_ok a

theorem FailsIn.bind {x : Except Failure α} {f : α → Except Failure β}
    (hx : ws.FailsIn limit region x) (hf : ∀ a, x = .ok a → ws.FailsIn limit region (f a)) :
    ws.FailsIn limit region (x >>= f) := by
  intro e he
  rcases bind_eq_error_iff.mp he with he | ⟨a, ha, he⟩
  · exact hx e he
  · exact hf a ha e he

end Runs

/-! ## Single blocks -/

section Blocks

variable (hb : region b)
include hb

theorem failsIn_kind : ws.FailsIn limit region (checked b.kind) := by
  refine failsIn_checked fun e h => ?_
  unfold Block.kind at h
  split at h
  · cases h
  · rename_i hnone
    cases h
    exact .unknownBlockType hb (Kind.ofTag?_eq_none_iff.mp hnone)

omit hb in
theorem failsIn_number? {v : FieldValue} {field : String}
    (hv : (CompileError.malformedLiteral b.id field v.shown).ArisesIn ws limit region) :
    ws.FailsIn limit region (checked (v.number? b.id field)) := by
  refine failsIn_checked fun e h => ?_
  obtain rfl := FieldValue.eq_malformed_of_number? h
  exact hv

theorem failsIn_numberField (field : String) :
    ws.FailsIn limit region (checked (b.numberField field)) := by
  unfold Block.numberField
  split
  · rename_i v hv
    exact failsIn_number? (.field hb hv)
  · exact failsIn_ok _

theorem failsIn_operation {byName : String → Option α} (field : String) {default : String}
    (hdefault : byName default ≠ none) :
    ws.FailsIn limit region (checked (b.operation field byName default)) := by
  refine failsIn_checked fun e h => ?_
  obtain ⟨v, hv, rfl⟩ := Block.operation_eq_error hdefault h
  exact .field hb hv

omit hb in
theorem failsIn_finite {slot : String} (x : Float)
    (hslot : (CompileError.nonFiniteValue b.id slot).ArisesIn ws limit region) :
    ws.FailsIn limit region (checked (b.finite slot x)) := by
  refine failsIn_checked fun e h => ?_
  unfold Block.finite at h
  split at h
  · cases h
  · cases h
    exact hslot

theorem failsIn_checkLimit (steps : Nat) :
    ws.FailsIn limit region (checked (checkLimit limit steps b.id)) := by
  refine failsIn_checked fun e h => ?_
  unfold checkLimit at h
  split at h
  · cases h
    exact .stepLimitExceeded hb
  · cases h

/-- Where a reference is followed, either it leads on or no block has the id. -/
theorem failsIn_resolve {id : BlockId} (hid : id ∈ b.references) {f : Block → Except Failure α}
    (hf : ∀ c, ws.find? id = some c → ws.FailsIn limit region (f c)) :
    ws.FailsIn limit region (checked (ws.resolve b.id id) >>= f) := by
  refine FailsIn.bind (failsIn_checked fun e h => ?_) fun c hc => ?_
  · obtain ⟨hnone, rfl⟩ := resolve_eq_error_iff.mp h
    exact .danglingReference hb hid hnone
  · exact hf c (resolve_eq_ok_iff.mp (checked_eq_ok_iff.mp hc))

/-- The errors of an expression are its own or those of the numbers attached to it. -/
theorem failsIn_evaluate {number : String → Except Failure (Option Float)}
    (hnumber : ∀ slot, ws.FailsIn limit region (number slot)) {e : Expression}
    (hkind : b.kind = .ok (.expression e)) : ws.FailsIn limit region (e.evaluate number b) := by
  cases e with
  | number => exact (failsIn_numberField hb "NUM").bind fun _ _ => failsIn_pure _
  | constant =>
    refine (failsIn_operation hb "CONSTANT" (by decide)).bind fun x _ => ?_
    exact (failsIn_finite x (.constant hb hkind)).bind fun _ _ => failsIn_pure _
  | arithmetic =>
    refine (hnumber "A").bind fun x _ => ?_
    refine (hnumber "B").bind fun y _ => ?_
    refine (failsIn_operation hb "OP" (by decide)).bind fun f _ => ?_
    exact (failsIn_finite _ (.operation hb (.inl hkind))).bind fun _ _ => failsIn_pure _
  | single =>
    refine (hnumber "NUM").bind fun x _ => ?_
    refine (failsIn_operation hb "OP" (by decide)).bind fun f _ => ?_
    exact (failsIn_finite _ (.operation hb (.inr hkind))).bind fun _ _ => failsIn_pure _
  | round =>
    refine (hnumber "NUM").bind fun x _ => ?_
    exact (failsIn_operation hb "OP" (by decide)).bind fun _ _ => failsIn_pure _
  | text => exact failsIn_pure _

end Blocks

/-! ## Values -/

section Values

variable {value : Block → Except Failure Scalar} (hb : region b)
  (hvalue : ∀ {slot c}, ws.Attached b slot c → ws.FailsIn limit region (value c))
include hb hvalue

theorem failsIn_inputBy (slot : String) : ws.FailsIn limit region (ws.inputBy value b slot) := by
  unfold inputBy
  split
  · exact failsIn_ok _
  · rename_i id hid
    refine failsIn_resolve hb (mem_references_of_value hid) fun c hc => ?_
    exact (hvalue ⟨id, hid, hc⟩).bind fun _ _ => failsIn_pure _

/-- The number in a slot was found finite before, so the check of it in the slot passes. -/
theorem failsIn_numberInputBy (hsame : ∀ {c v}, value c = .ok v → ws.value c = .ok v)
    (slot : String) : ws.FailsIn limit region (ws.numberInputBy value b slot) := by
  refine (failsIn_inputBy hb hvalue slot).bind fun v hv => ?_
  rcases v with _ | v
  · exact failsIn_pure _
  · obtain ⟨c, hc, hcv⟩ := exists_attached_of_inputBy hv
    have hcv := hsame hcv
    cases v with
    | number x =>
      have hx : b.finite slot x = .ok x :=
        Block.finite_eq_ok_iff.mpr ⟨isFinite_of_value hcv, rfl⟩
      dsimp only
      rw [hx]
      exact failsIn_pure _
    | text s => exact failsIn_number? (.attachedText hb hc hcv)

end Values

namespace Closed

variable (hclosed : ws.Closed region) (hb : region b)
include hclosed hb

/-- The induction is on the way along value slots that is left. -/
theorem failsIn_valueWithin {bound : Nat} (hbound : bound ≤ ws.size + 1) {slot : String}
    (hc : ws.Attached b slot c) : ws.FailsIn limit region (ws.valueWithin bound c) := by
  induction bound generalizing b c slot with
  | zero => exact failsIn_endless
  | succ bound ih =>
    have hbound : bound ≤ ws.size + 1 := Nat.le_of_succ_le hbound
    have hregion : region c := hclosed b c hb hc.refersTo
    refine (failsIn_kind hregion).bind fun k hk => ?_
    rw [checked_eq_ok_iff] at hk
    have hexpected : k.category ≠ .value →
        (CompileError.expectedValueBlock c.id c.type).ArisesIn ws limit region :=
      .expectedValueBlock hb hc hk
    cases k with
    | action a => exact failsIn_rejected (hexpected nofun)
    | loop l => exact failsIn_rejected (hexpected nofun)
    | expression e =>
      refine failsIn_evaluate hregion (fun slot => ?_) hk
      exact failsIn_numberInputBy hregion (ih hregion hbound) (valueWithin_mono hbound) slot

theorem failsIn_input (slot : String) : ws.FailsIn limit region (ws.input b slot) :=
  failsIn_inputBy hb (hclosed.failsIn_valueWithin hb (Nat.le_refl _)) slot

theorem failsIn_numberInput (slot : String) : ws.FailsIn limit region (ws.numberInput b slot) :=
  failsIn_numberInputBy hb (hclosed.failsIn_valueWithin hb (Nat.le_refl _)) id slot

theorem failsIn_numberParam (slot : String) (default : Float) :
    ws.FailsIn limit region (ws.numberParam b slot default) := by
  refine (hclosed.failsIn_numberInput hb slot).bind fun v _ => ?_
  rcases v with _ | x
  · exact (failsIn_numberField hb slot).bind fun _ _ => failsIn_pure _
  · exact failsIn_pure _

theorem failsIn_textParam (slot default : String) :
    ws.FailsIn limit region (ws.textParam b slot default) := by
  refine (hclosed.failsIn_input hb slot).bind fun v _ => ?_
  rcases v with _ | s
  · exact failsIn_pure _
  · exact failsIn_pure _

/-! ## Steps and loops -/

theorem failsIn_step (hooks : HookTable) (a : Action) :
    ws.FailsIn limit region (a.step ws hooks b) := by
  have hparams : ws.FailsIn limit region (a.params ws b) := by
    cases a with
    | setLaserPower =>
      refine (hclosed.failsIn_numberParam hb "POWER" 10).bind fun _ _ => ?_
      exact (hclosed.failsIn_textParam hb "CHANNEL" "LED").bind fun _ _ => failsIn_pure _
    | waitTime =>
      exact (hclosed.failsIn_numberParam hb "SECONDS" 1).bind fun _ _ => failsIn_pure _
    | acquireFrame =>
      exact (hclosed.failsIn_textParam hb "CHANNEL" "Mono").bind fun _ _ => failsIn_pure _
    | moveStage =>
      refine (hclosed.failsIn_numberParam hb "X" 0).bind fun _ _ => ?_
      refine (hclosed.failsIn_numberParam hb "Y" 0).bind fun _ _ => ?_
      exact (hclosed.failsIn_numberParam hb "Z" 0).bind fun _ _ => failsIn_pure _
  exact hparams.bind fun _ _ => failsIn_pure _

theorem failsIn_loopCount (l : Loop) : ws.FailsIn limit region (ws.loopCount b l) := by
  cases l with
  | byInput => exact hclosed.failsIn_numberInput hb "TIMES"
  | byField => exact failsIn_numberField hb "TIMES"

/-- References that are followed together lead into the region, or the first that does not lead to a
block is named. -/
theorem failsIn_resolveAll {ids : List BlockId} (hids : ∀ id ∈ ids, id ∈ b.references)
    {f : List Block → Except Failure α}
    (hf : ∀ cs, (∀ c ∈ cs, region c) → ws.FailsIn limit region (f cs)) :
    ws.FailsIn limit region (checked (ws.resolveAll b.id ids) >>= f) := by
  refine FailsIn.bind (failsIn_checked fun e h => ?_) fun cs hcs => hf cs fun c hc => ?_
  · obtain ⟨id, hid, hnone, rfl⟩ := resolveAll_eq_error h
    exact .danglingReference hb (hids id hid) hnone
  · obtain ⟨id, hid, hc⟩ := (mem_resolveAll_iff (checked_eq_ok_iff.mp hcs)).mp hc
    exact hclosed b c hb ⟨id, hids id hid, hc⟩

omit hb in
/-- What is pending in the check of an idle body stays in the region. -/
theorem failsIn_validateWithin {bound : Nat} {pending : List Block} {seen : List BlockId}
    (hpending : ∀ c ∈ pending, region c) :
    ws.FailsIn limit region (ws.validateWithin bound pending seen) := by
  induction bound generalizing pending seen with
  | zero => exact failsIn_endless
  | succ bound ih =>
    rcases pending with _ | ⟨b, pending⟩
    · exact failsIn_ok _
    · rw [List.forall_mem_cons] at hpending
      obtain ⟨hb, hpending⟩ := hpending
      rw [validateWithin]
      split
      · exact ih hpending
      · refine (failsIn_kind hb).bind fun _ _ => ?_
        refine hclosed.failsIn_resolveAll hb (fun _ hid => hid) fun cs hcs => ih fun c hc => ?_
        rcases List.mem_append.mp hc with hc | hc
        · exact hcs c (List.mem_reverse.mp hc)
        · exact hpending c hc

theorem failsIn_validate : ws.FailsIn limit region (ws.validate b) :=
  hclosed.failsIn_validateWithin (List.forall_mem_singleton.mpr hb)

theorem failsIn_unrollOutcome {body : Block → Except Failure (List Step)}
    (hbody : ∀ head, region head → ws.FailsIn limit region (body head)) {count : Option Float}
    (hcount : FiniteCount count) :
    ws.FailsIn limit region (ws.unrollOutcome limit body b count) := by
  rcases hid : b.statements.get? Kind.bodySlot with _ | id
  · rw [unrollOutcome, hid]
    exact failsIn_ok _
  · rw [unrollOutcome_of_body hid hcount]
    refine failsIn_resolve hb (mem_references_of_statement hid) fun head hhead => ?_
    have hregion : region head := hclosed b head hb (HeadsBody.refersTo ⟨id, hid, hhead⟩)
    split
    · exact (hclosed.failsIn_validate hregion).bind fun _ _ => failsIn_ok _
    · refine (hbody head hregion).bind fun steps _ => ?_
      split
      · exact failsIn_ok _
      · exact failsIn_rejected (.stepLimitExceeded hb)

theorem failsIn_contributionOutcome {opts : Options} {body : Block → Except Failure (List Step)}
    (hbody : ∀ head, region head → ws.FailsIn opts.maxSteps region (body head)) :
    ws.FailsIn opts.maxSteps region (ws.contributionOutcome opts body b) := by
  refine (failsIn_kind hb).bind fun k _ => ?_
  cases k with
  | action a => exact (hclosed.failsIn_step hb opts.hooks a).bind fun _ _ => failsIn_pure _
  | loop l =>
    refine (hclosed.failsIn_loopCount hb l).bind fun count hcount => ?_
    exact hclosed.failsIn_unrollOutcome hb hbody (finiteCount_of_loopCount hcount)
  | expression e => exact failsIn_pure _

/-! ## Chains -/

theorem failsIn_walkOutcome {part : Block → Except Failure (List Step)}
    (hpart : ∀ c, region c → ws.FailsIn limit region (part c)) {bound done : Nat} :
    ws.FailsIn limit region (ws.walkOutcome limit part bound done b) := by
  induction bound generalizing done b with
  | zero => exact failsIn_endless
  | succ bound ih =>
    rw [walkOutcome]
    refine (hpart b hb).bind fun more _ => ?_
    refine (failsIn_checkLimit hb (done + more.length)).bind fun _ _ => ?_
    split
    · exact failsIn_pure _
    · rename_i id hid
      refine failsIn_resolve hb (mem_references_of_next hid) fun next hnext => ?_
      have hregion : region next := hclosed b next hb (ComesNext.refersTo ⟨id, hid, hnext⟩)
      exact (ih hregion).bind fun _ _ => failsIn_pure _

/-- The errors of a chain arise in every region that holds its head. -/
theorem failsIn_chainOutcome {opts : Options} {nest : Nat} :
    ws.FailsIn opts.maxSteps region (ws.chainOutcome opts nest b) := by
  induction nest generalizing b with
  | zero => exact failsIn_endless
  | succ nest ih =>
    exact hclosed.failsIn_walkOutcome hb fun c hc =>
      hclosed.failsIn_contributionOutcome hc fun head hhead => ih hhead

omit hb in
/-- The heads of a program are blocks, so the workspace itself is never named as the origin. -/
theorem failsIn_chainsOutcome {opts : Options} {heads : List BlockId}
    (hheads : ∀ id ∈ heads, ∃ head, ws.find? id = some head ∧ region head) (done : Nat) :
    ws.FailsIn opts.maxSteps region (ws.chainsOutcome opts done heads) := by
  induction heads generalizing done with
  | nil => exact failsIn_ok _
  | cons id rest ih =>
    rw [List.forall_mem_cons] at hheads
    obtain ⟨⟨head, hfound, hhead⟩, hrest⟩ := hheads
    rw [chainsOutcome, resolve_eq_ok_iff.mpr hfound, ← id_of_find? hfound]
    refine (hclosed.failsIn_chainOutcome hhead).bind fun steps _ => ?_
    refine (failsIn_checkLimit hhead (done + steps.length)).bind fun _ _ => ?_
    exact (ih hrest (done + steps.length)).bind fun _ _ => failsIn_pure _

end Closed

end Workspace

end BlockSteps

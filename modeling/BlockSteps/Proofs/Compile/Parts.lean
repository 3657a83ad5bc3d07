import Mathlib
import BlockSteps.Proofs.Compile.Limit

/-!
# Parts of a workspace

What a chain compiles to is decided by the blocks that can be reached from its head.  `IsPart` says
that a workspace keeps its references to itself when it is put into a greater one: whatever one of
its blocks refers to is found in the part as it is found in the whole, and what dangles in the one
dangles in the other.

**Two runs, one end.**  The compiler runs with bounds that grow with the workspace, so a run on the
part and a run on the whole are not the same computation.  `SameEnd` says of two runs that they give
the same, and that neither of them was stopped by its bound.  It is closed under doing one thing
after the other (`SameEnd.bind`), and there is one lemma for each function of the compiler, up to
`IsPart.sameEnd_chainsOutcome`.  The bounds enter at four places:

* along value slots, along a chain and into bodies, a bound is enough if it exceeds what lies
  **below** the block, and that falls with every reference if there is no circle;
* in the check of a body that is not run, a bound is enough if it exceeds what is pending and what
  is not yet seen.  This needs no condition on circles.

**Main statements.**  `IsPart.sameEnd_chainsOutcome`, and, since a workspace is a part of itself,
`compileFrom_ne_endless`: without circles every compilation comes to an end.
-/

namespace BlockSteps

variable {α β : Type}

/-- Two runs come to the same end: the first is not stopped by a bound, and the second gives what
the first gives. -/
structure SameEnd (x y : Except Failure α) : Prop where
  /-- The first run comes to an end. -/
  ends : x ≠ .error .endless
  /-- The second gives the same. -/
  eq : y = x

namespace SameEnd

theorem ok (a : α) : SameEnd (.ok a) (.ok a) := ⟨nofun, rfl⟩

theorem pure (a : α) : SameEnd (Pure.pure a) (Pure.pure a) := ⟨nofun, rfl⟩

theorem rejected (e : CompileError) :
    SameEnd (.error (.rejected e) : Except Failure α) (.error (.rejected e)) :=
  ⟨nofun, rfl⟩

/-- A check of a single block comes to an end. -/
theorem checked (x : Except CompileError α) :
    SameEnd (BlockSteps.checked x) (BlockSteps.checked x) := by
  cases x with
  | error e => exact rejected e
  | ok a => exact ok a

theorem bind {x y : Except Failure α} {f g : α → Except Failure β} (hxy : SameEnd x y)
    (hfg : ∀ a, x = .ok a → SameEnd (f a) (g a)) : SameEnd (x >>= f) (y >>= g) := by
  obtain ⟨hends, rfl⟩ := hxy
  cases y with
  | error e => exact ⟨fun h => hends (congrArg _ (Except.error.inj h)), rfl⟩
  | ok a => exact hfg a rfl

end SameEnd

/-- The value of an expression comes to one end if the numbers attached to it do. -/
theorem Expression.sameEnd_evaluate {number number' : String → Except Failure (Option Float)}
    (hnumber : ∀ slot, SameEnd (number slot) (number' slot)) (b : Block) (e : Expression) :
    SameEnd (e.evaluate number b) (e.evaluate number' b) := by
  cases e with
  | number =>
    apply (SameEnd.checked (b.numberField "NUM")).bind
    intro n _
    exact SameEnd.pure _
  | constant =>
    apply (SameEnd.checked (b.operation "CONSTANT" constant? "PI")).bind
    intro x _
    apply (SameEnd.checked (b.finite "CONSTANT" x)).bind
    intro y _
    exact SameEnd.pure _
  | arithmetic =>
    apply (hnumber "A").bind
    intro x _
    apply (hnumber "B").bind
    intro y _
    apply (SameEnd.checked (b.operation "OP" arithmetic? "ADD")).bind
    intro f _
    apply (SameEnd.checked (b.finite "OP" (f (x.getD 0) (y.getD 0)))).bind
    intro z _
    exact SameEnd.pure _
  | single =>
    apply (hnumber "NUM").bind
    intro x _
    apply (SameEnd.checked (b.operation "OP" single? "ROOT")).bind
    intro f _
    apply (SameEnd.checked (b.finite "OP" (f (x.getD 0)))).bind
    intro y _
    exact SameEnd.pure _
  | round =>
    apply (hnumber "NUM").bind
    intro x _
    apply (SameEnd.checked (b.operation "OP" rounding? "ROUND")).bind
    intro f _
    exact SameEnd.pure _
  | text => exact SameEnd.pure _

namespace Workspace

/-! ## Following references together -/

/-- References are resolved each to the block that is found under it. -/
theorem resolveAll_eq_ok_iff {ws : Workspace} {origin : BlockId} {ids : List BlockId}
    {cs : List Block} : ws.resolveAll origin ids = .ok cs ↔ ids.map ws.find? = cs.map some := by
  induction ids generalizing cs with
  | nil =>
    rw [resolveAll, Except.ok.injEq, List.map_nil]
    constructor
    · rintro rfl
      rfl
    · intro h
      exact (List.map_eq_nil_iff.mp h.symm).symm
  | cons id rest ih =>
    rw [resolveAll, bind_eq_ok_iff, List.map_cons]
    constructor
    · rintro ⟨c, hc, h⟩
      obtain ⟨cs', hcs', h⟩ := bind_eq_ok_iff.mp h
      cases h
      rw [resolve_eq_ok_iff.mp hc, ih.mp hcs', List.map_cons]
    · intro h
      cases cs with
      | nil => cases h
      | cons c cs' =>
        obtain ⟨hc, hcs'⟩ := List.cons.inj h
        exact ⟨c, resolve_eq_ok_iff.mpr hc, bind_eq_ok_iff.mpr ⟨cs', ih.mpr hcs', rfl⟩⟩

theorem length_of_resolveAll {ws : Workspace} {origin : BlockId} {ids : List BlockId}
    {cs : List Block} (h : ws.resolveAll origin ids = .ok cs) : cs.length = ids.length := by
  simpa using (congrArg List.length (resolveAll_eq_ok_iff.mp h)).symm

/-- A block stands among those that references lead to exactly if one of them leads to it. -/
theorem mem_resolveAll_iff {ws : Workspace} {origin : BlockId} {ids : List BlockId}
    {cs : List Block} (h : ws.resolveAll origin ids = .ok cs) {c : Block} :
    c ∈ cs ↔ ∃ id ∈ ids, ws.find? id = some c := by
  have hmem : some c ∈ ids.map ws.find? ↔ some c ∈ cs.map some := by
    rw [resolveAll_eq_ok_iff.mp h]
  simpa using hmem.symm

/-! ## What is not yet seen -/

/-- The number of references of the blocks in a list whose ids are not among the seen ones. -/
def unseen (seen : List BlockId) (blocks : List Block) : Nat :=
  (blocks.map fun b => if b.id ∈ seen then 0 else b.references.length).sum

theorem unseen_cons (seen : List BlockId) (b : Block) (rest : List Block) :
    unseen seen (b :: rest) =
      (if b.id ∈ seen then 0 else b.references.length) + unseen seen rest := by
  simp [unseen]

/-- Nothing is unseen that was seen before. -/
theorem unseen_le (seen : List BlockId) (id : BlockId) (blocks : List Block) :
    unseen (id :: seen) blocks ≤ unseen seen blocks := by
  apply List.sum_le_sum
  intro b _
  by_cases h : b.id ∈ seen
  · simp [h]
  · rw [if_neg h]
    split
    · exact Nat.zero_le _
    · exact Nat.le_refl _

/-- A block that is seen for the first time gives up as many references as it has. -/
theorem unseen_cons_add_le {seen : List BlockId} {b : Block} (hnew : b.id ∉ seen) :
    ∀ {blocks : List Block}, b ∈ blocks →
      unseen (b.id :: seen) blocks + b.references.length ≤ unseen seen blocks
  | [], hb => absurd hb List.not_mem_nil
  | c :: rest, hb => by
    rw [unseen_cons, unseen_cons]
    rcases List.mem_cons.mp hb with rfl | hb
    · have hrest := unseen_le seen b.id rest
      rw [if_neg hnew, if_pos List.mem_cons_self]
      omega
    · have hrest := unseen_cons_add_le hnew hb
      by_cases hc : c.id ∈ seen
      · rw [if_pos hc, if_pos (List.mem_cons_of_mem _ hc)]
        omega
      · rw [if_neg hc]
        split
        · omega
        · omega

theorem unseen_nil (ws : Workspace) : unseen [] ws.blocks.toList = ws.referenced.length := by
  simp [unseen, referenced, List.length_flatMap]

/-! ## Parts -/

/-- What the blocks of the first workspace refer to is the same in both, and the second has at least
as many blocks and references. -/
structure IsPart (part whole : Workspace) : Prop where
  /-- A reference of the part leads where it leads in the whole. -/
  find?_eq : ∀ b ∈ part.blocks, ∀ id ∈ b.references, whole.find? id = part.find? id
  /-- The part has no more blocks. -/
  size_le : part.size ≤ whole.size
  /-- The part has no more references. -/
  length_referenced_le : part.referenced.length ≤ whole.referenced.length

/-- A workspace is a part of itself. -/
theorem IsPart.refl (ws : Workspace) : ws.IsPart ws := ⟨fun _ _ _ _ => rfl, le_rfl, le_rfl⟩

variable {part whole : Workspace} {b : Block}

namespace IsPart

variable (h : part.IsPart whole)
include h

theorem resolve_eq (hb : b ∈ part.blocks) {id : BlockId} (hid : id ∈ b.references) :
    whole.resolve b.id id = part.resolve b.id id := by
  rw [resolve, resolve, h.find?_eq b hb id hid]

/-- Where a reference of the part is followed, both runs go on with the same block. -/
theorem sameEnd_resolve (hb : b ∈ part.blocks) {id : BlockId} (hid : id ∈ b.references)
    {f g : Block → Except Failure α} (hfg : ∀ c, part.RefersTo b c → SameEnd (f c) (g c)) :
    SameEnd (checked (part.resolve b.id id) >>= f) (checked (whole.resolve b.id id) >>= g) := by
  rw [h.resolve_eq hb hid]
  apply (SameEnd.checked _).bind
  intro c hc
  rw [checked_eq_ok_iff, resolve_eq_ok_iff] at hc
  exact hfg c ⟨id, hid, hc⟩

/-! ## Values -/

section Values

variable {value value' : Block → Except Failure Scalar}

theorem sameEnd_inputBy (hb : b ∈ part.blocks)
    (hvalue : ∀ c, part.RefersTo b c → SameEnd (value c) (value' c)) (slot : String) :
    SameEnd (part.inputBy value b slot) (whole.inputBy value' b slot) := by
  unfold inputBy
  split
  · exact SameEnd.ok none
  · rename_i id hid
    apply h.sameEnd_resolve hb (mem_references_of_value hid)
    intro c hc
    apply (hvalue c hc).bind
    intro v _
    exact SameEnd.pure _

theorem sameEnd_numberInputBy (hb : b ∈ part.blocks)
    (hvalue : ∀ c, part.RefersTo b c → SameEnd (value c) (value' c)) (slot : String) :
    SameEnd (part.numberInputBy value b slot) (whole.numberInputBy value' b slot) := by
  apply (h.sameEnd_inputBy hb hvalue slot).bind
  intro v _
  match v with
  | none => exact SameEnd.pure none
  | some (.number x) =>
    apply (SameEnd.checked (b.finite slot x)).bind
    intro y _
    exact SameEnd.pure _
  | some (.text s) => exact SameEnd.checked _

end Values

/-- Bounds that exceed what lies below a block find the same value. -/
theorem sameEnd_valueWithin (hacyclic : part.Acyclic) {bound bound' : Nat} (hb : b ∈ part.blocks)
    (hbound : part.below b < bound) (hbound' : part.below b < bound') :
    SameEnd (part.valueWithin bound b) (whole.valueWithin bound' b) := by
  induction bound generalizing bound' b with
  | zero => omega
  | succ bound ih =>
    obtain ⟨bound', rfl⟩ := Nat.exists_eq_succ_of_ne_zero (Nat.ne_zero_of_lt hbound')
    rw [valueWithin, valueWithin]
    apply (SameEnd.checked b.kind).bind
    intro k _
    cases k with
    | action a => exact SameEnd.rejected _
    | loop l => exact SameEnd.rejected _
    | expression e =>
      apply Expression.sameEnd_evaluate
      apply h.sameEnd_numberInputBy hb
      intro c hc
      have hfall := below_lt hacyclic hc
      exact ih hc.mem (by omega) (by omega)

theorem sameEnd_value (hacyclic : part.Acyclic) {c : Block} (hbc : part.RefersTo b c) :
    SameEnd (part.value c) (whole.value c) := by
  have hbelow := part.below_le_size c
  have hsize := h.size_le
  exact h.sameEnd_valueWithin hacyclic hbc.mem (by omega) (by omega)

theorem sameEnd_numberInput (hacyclic : part.Acyclic) (hb : b ∈ part.blocks) (slot : String) :
    SameEnd (part.numberInput b slot) (whole.numberInput b slot) :=
  h.sameEnd_numberInputBy hb (fun _ => h.sameEnd_value hacyclic) slot

theorem sameEnd_numberParam (hacyclic : part.Acyclic) (hb : b ∈ part.blocks) (slot : String)
    (default : Float) :
    SameEnd (part.numberParam b slot default) (whole.numberParam b slot default) := by
  apply (h.sameEnd_numberInput hacyclic hb slot).bind
  intro x _
  cases x with
  | some x => exact SameEnd.pure x
  | none =>
    apply (SameEnd.checked (b.numberField slot)).bind
    intro x _
    exact SameEnd.pure _

theorem sameEnd_textParam (hacyclic : part.Acyclic) (hb : b ∈ part.blocks)
    (slot default : String) :
    SameEnd (part.textParam b slot default) (whole.textParam b slot default) := by
  apply (h.sameEnd_inputBy hb (fun _ => h.sameEnd_value hacyclic) slot).bind
  intro v _
  cases v with
  | some v => exact SameEnd.pure _
  | none => exact SameEnd.pure _

/-! ## Steps and loops -/

theorem sameEnd_step (hacyclic : part.Acyclic) (hb : b ∈ part.blocks) (hooks : HookTable)
    (a : Action) : SameEnd (a.step part hooks b) (a.step whole hooks b) := by
  have hnumber := h.sameEnd_numberParam hacyclic hb
  have htext := h.sameEnd_textParam hacyclic hb
  have hparams : SameEnd (a.params part b) (a.params whole b) := by
    cases a with
    | setLaserPower =>
      apply (hnumber "POWER" 10).bind
      intro power _
      apply (htext "CHANNEL" "LED").bind
      intro channel _
      exact SameEnd.pure _
    | waitTime =>
      apply (hnumber "SECONDS" 1).bind
      intro seconds _
      exact SameEnd.pure _
    | acquireFrame =>
      apply (htext "CHANNEL" "Mono").bind
      intro channel _
      exact SameEnd.pure _
    | moveStage =>
      apply (hnumber "X" 0).bind
      intro x _
      apply (hnumber "Y" 0).bind
      intro y _
      apply (hnumber "Z" 0).bind
      intro z _
      exact SameEnd.pure _
  apply hparams.bind
  intro params _
  exact SameEnd.pure _

theorem sameEnd_loopCount (hacyclic : part.Acyclic) (hb : b ∈ part.blocks) (l : Loop) :
    SameEnd (part.loopCount b l) (whole.loopCount b l) := by
  cases l with
  | byInput => exact h.sameEnd_numberInput hacyclic hb "TIMES"
  | byField => exact SameEnd.checked _

theorem resolveAll_eq (hb : b ∈ part.blocks) {ids : List BlockId}
    (hids : ∀ id ∈ ids, id ∈ b.references) :
    whole.resolveAll b.id ids = part.resolveAll b.id ids := by
  induction ids with
  | nil => rfl
  | cons id rest ih =>
    rw [List.forall_mem_cons] at hids
    rw [resolveAll, resolveAll, h.resolve_eq hb hids.1, ih hids.2]

/-- Bounds that exceed what is pending and what is not yet seen check the same blocks.  A block that
is seen for the first time puts on the stack no more than it takes from the unseen references. -/
theorem sameEnd_validateWithin {bound bound' : Nat} {pending : List Block} {seen : List BlockId}
    (hpending : ∀ b ∈ pending, b ∈ part.blocks)
    (hbound : pending.length + unseen seen part.blocks.toList < bound)
    (hbound' : pending.length + unseen seen part.blocks.toList < bound') :
    SameEnd (part.validateWithin bound pending seen)
      (whole.validateWithin bound' pending seen) := by
  induction bound generalizing bound' pending seen with
  | zero => omega
  | succ bound ih =>
    obtain ⟨bound', rfl⟩ := Nat.exists_eq_succ_of_ne_zero (Nat.ne_zero_of_lt hbound')
    cases pending with
    | nil => exact SameEnd.ok ()
    | cons b pending =>
      rw [List.forall_mem_cons] at hpending
      rw [List.length_cons] at hbound hbound'
      rw [validateWithin, validateWithin]
      by_cases hseen : b.id ∈ seen
      · rw [if_pos (List.contains_iff_mem.mpr hseen), if_pos (List.contains_iff_mem.mpr hseen)]
        exact ih hpending.2 (by omega) (by omega)
      · have hnew : ¬ seen.contains b.id = true := by simpa using hseen
        rw [if_neg hnew, if_neg hnew, h.resolveAll_eq hpending.1 fun _ => id]
        apply (SameEnd.checked b.kind).bind
        intro k _
        apply (SameEnd.checked (part.resolveAll b.id b.references)).bind
        intro children hchildren
        rw [checked_eq_ok_iff] at hchildren
        have hfall := unseen_cons_add_le hseen (Array.mem_toList_iff.mpr hpending.1)
        have hstack : (children.reverse ++ pending).length =
            b.references.length + pending.length := by
          rw [List.length_append, List.length_reverse, length_of_resolveAll hchildren]
        apply ih
        · intro c hc
          rcases List.mem_append.mp hc with hc | hc
          · obtain ⟨id, -, hid⟩ := (mem_resolveAll_iff hchildren).mp (List.mem_reverse.mp hc)
            exact mem_of_find? hid
          · exact hpending.2 c hc
        · omega
        · omega

theorem sameEnd_validate (hb : b ∈ part.blocks) :
    SameEnd (part.validate b) (whole.validate b) := by
  have hreferenced := h.length_referenced_le
  apply h.sameEnd_validateWithin
  · intro c hc
    rw [List.mem_singleton.mp hc]
    exact hb
  · rw [unseen_nil, List.length_singleton]
    omega
  · rw [unseen_nil, List.length_singleton]
    omega

omit h in
/-- What is done with a body that was compiled asks nothing of the workspace. -/
theorem sameEnd_repeatOutcome (limit : Nat) (block : BlockId) (trips : Float) (steps : List Step) :
    SameEnd (repeatOutcome limit block trips steps) (repeatOutcome limit block trips steps) := by
  unfold repeatOutcome
  split
  · exact SameEnd.ok []
  · split
    · exact SameEnd.rejected _
    · exact SameEnd.ok _

theorem sameEnd_unrollOutcome (hb : b ∈ part.blocks) {limit : Nat}
    {body body' : Block → Except Failure (List Step)}
    (hbody : ∀ c, part.RefersTo b c → SameEnd (body c) (body' c)) (count : Option Float) :
    SameEnd (part.unrollOutcome limit body b count) (whole.unrollOutcome limit body' b count) := by
  unfold unrollOutcome
  split
  · exact SameEnd.ok []
  · rename_i id hid
    apply h.sameEnd_resolve hb (mem_references_of_statement hid)
    intro head hhead
    split
    · apply (h.sameEnd_validate hhead.mem).bind
      intro _ _
      exact SameEnd.pure []
    · apply (hbody head hhead).bind
      intro steps _
      exact sameEnd_repeatOutcome limit b.id (tripCount count) steps

theorem sameEnd_contributionOutcome (hacyclic : part.Acyclic) (hb : b ∈ part.blocks)
    {opts : Options} {body body' : Block → Except Failure (List Step)}
    (hbody : ∀ c, part.RefersTo b c → SameEnd (body c) (body' c)) :
    SameEnd (part.contributionOutcome opts body b) (whole.contributionOutcome opts body' b) := by
  apply (SameEnd.checked b.kind).bind
  intro k _
  cases k with
  | expression e => exact SameEnd.pure []
  | action a =>
    apply (h.sameEnd_step hacyclic hb opts.hooks a).bind
    intro s _
    exact SameEnd.pure [s]
  | loop l =>
    apply (h.sameEnd_loopCount hacyclic hb l).bind
    intro count _
    exact h.sameEnd_unrollOutcome hb hbody count

/-! ## Chains -/

/-- Walks come to one end within bounds that exceed what lies below their head, if the parts of all
blocks no higher than the head do. -/
theorem sameEnd_walkOutcome (hacyclic : part.Acyclic) {limit height : Nat}
    {f g : Block → Except Failure (List Step)}
    (hfg : ∀ c ∈ part.blocks, part.below c ≤ height → SameEnd (f c) (g c))
    {bound bound' done : Nat} (hb : b ∈ part.blocks) (hheight : part.below b ≤ height)
    (hbound : part.below b < bound) (hbound' : part.below b < bound') :
    SameEnd (part.walkOutcome limit f bound done b) (whole.walkOutcome limit g bound' done b) := by
  induction bound generalizing bound' done b with
  | zero => omega
  | succ bound ih =>
    obtain ⟨bound', rfl⟩ := Nat.exists_eq_succ_of_ne_zero (Nat.ne_zero_of_lt hbound')
    rw [walkOutcome, walkOutcome]
    apply (hfg b hb hheight).bind
    intro more _
    apply (SameEnd.checked (checkLimit limit (done + more.length) b.id)).bind
    intro _ _
    split
    · exact SameEnd.pure more
    · rename_i id hnext
      apply h.sameEnd_resolve hb (mem_references_of_next hnext)
      intro next hrefers
      have hfall := below_lt hacyclic hrefers
      have hrest : SameEnd (part.walkOutcome limit f bound (done + more.length) next)
          (whole.walkOutcome limit g bound' (done + more.length) next) :=
        ih hrefers.mem (by omega) (by omega) (by omega)
      apply hrest.bind
      intro rest _
      exact SameEnd.pure _

/-- The induction is on the depth of bodies in the part; the head of a body has less below it than
the head of the chain in which the loop stands. -/
theorem sameEnd_chainOutcome (hacyclic : part.Acyclic) {opts : Options} {nest nest' : Nat}
    (hb : b ∈ part.blocks) (hnest : part.below b < nest) (hnest' : part.below b < nest') :
    SameEnd (part.chainOutcome opts nest b) (whole.chainOutcome opts nest' b) := by
  induction nest generalizing nest' b with
  | zero => omega
  | succ nest ih =>
    obtain ⟨nest', rfl⟩ := Nat.exists_eq_succ_of_ne_zero (Nat.ne_zero_of_lt hnest')
    rw [chainOutcome, chainOutcome]
    have hbound : part.below b < part.walkBound opts.maxSteps :=
      below_lt_walkBound b opts.maxSteps
    have hwalk : part.walkBound opts.maxSteps ≤ whole.walkBound opts.maxSteps :=
      Nat.mul_le_mul_right _ (Nat.succ_le_succ h.size_le)
    apply h.sameEnd_walkOutcome hacyclic _ hb le_rfl hbound (by omega)
    intro c hc hheight
    apply h.sameEnd_contributionOutcome hacyclic hc
    intro head hhead
    have hfall := below_lt hacyclic hhead
    exact ih hhead.mem (by omega) (by omega)

/-- Chains whose heads are blocks of the part compile in the whole as they do in the part. -/
theorem sameEnd_chainsOutcome (hacyclic : part.Acyclic) {opts : Options} {heads : List BlockId}
    (hheads : ∀ id ∈ heads, whole.find? id = part.find? id) (done : Nat) :
    SameEnd (part.chainsOutcome opts done heads) (whole.chainsOutcome opts done heads) := by
  induction heads generalizing done with
  | nil => exact SameEnd.ok []
  | cons id rest ih =>
    rw [List.forall_mem_cons] at hheads
    have hresolve : whole.resolve "workspace" id = part.resolve "workspace" id := by
      rw [resolve, resolve, hheads.1]
    rw [chainsOutcome, chainsOutcome, hresolve]
    apply (SameEnd.checked (part.resolve "workspace" id)).bind
    intro head hhead
    rw [checked_eq_ok_iff, resolve_eq_ok_iff] at hhead
    have hbelow := part.below_le_size head
    have hsize := h.size_le
    have hchain : SameEnd (part.chainOutcome opts part.nestBound head)
        (whole.chainOutcome opts whole.nestBound head) := by
      apply h.sameEnd_chainOutcome hacyclic (mem_of_find? hhead)
      · exact Nat.lt_succ_of_le hbelow
      · exact Nat.lt_succ_of_le (hbelow.trans hsize)
    apply hchain.bind
    intro steps _
    apply (SameEnd.checked (checkLimit opts.maxSteps (done + steps.length) id)).bind
    intro _ _
    apply (ih hheads.2 (done + steps.length)).bind
    intro more _
    exact SameEnd.pure _

end IsPart

/-- Without circles every compilation comes to an end, whatever its heads are. -/
theorem compileFrom_ne_endless {ws : Workspace} (hacyclic : ws.Acyclic) (heads : List BlockId)
    (opts : Options) : ws.compileFrom heads opts ≠ .error .endless := by
  have hsame : SameEnd (ws.chainsOutcome opts 0 heads) (ws.chainsOutcome opts 0 heads) :=
    (IsPart.refl ws).sameEnd_chainsOutcome hacyclic (fun _ _ => rfl) 0
  rw [compileFrom_eq]
  cases hsteps : ws.chainsOutcome opts 0 heads with
  | ok steps => exact nofun
  | error f =>
    intro h
    exact hsame.ends (hsteps.trans (congrArg _ (Except.error.inj h)))

end Workspace

end BlockSteps

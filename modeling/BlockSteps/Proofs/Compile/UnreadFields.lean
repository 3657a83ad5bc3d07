import Mathlib
import BlockSteps.Proofs.Compile.Outcome
import BlockSteps.Proofs.Compile.ReadSlots

/-!
# Fields that are not read

The literal fields of a block are read when its step is made, its turns are counted or its value is
asked for.  Where nothing of this happens they may hold anything: `Workspace.refill` exchanges the
fields of all blocks, and as long as it **spares** those that are compiled or asked for their value,
every function of the compiler gives what it gave before (`Spares.compile_refill`), errors included.
The graph is not touched, so the check of idle bodies sees no difference in any case.

**In a loaded workspace** two places are never read (`compile_setFields`):

* a block that has a value and stands in a chain: at the top, behind a block, or first in a body.
  There is only one reference to it, and that is not from a value slot;
* whatever is in the body of a loop without turns.  A link that is followed into the body, or a slot
  that is read in it, would need a way into it other than through the loop.
-/

namespace BlockSteps

/-- The block with its fields exchanged. -/
def Block.refill (f : Block → Dict FieldValue) (b : Block) : Block := { b with fields := f b }

section

variable (f : Block → Dict FieldValue) (b : Block)

@[simp] theorem Block.refill_id : (b.refill f).id = b.id := rfl

@[simp] theorem Block.refill_next : (b.refill f).next = b.next := rfl

@[simp] theorem Block.refill_references : (b.refill f).references = b.references := rfl

@[simp] theorem Block.refill_kind : (b.refill f).kind = b.kind := rfl

end

theorem Block.refill_eq_self {f : Block → Dict FieldValue} {b : Block} (h : f b = b.fields) :
    b.refill f = b := by
  rw [refill, h]

/-- An expression does not ask for more than its operands. -/
theorem Expression.evaluate_congr {number number' : String → Except Failure (Option Float)}
    {e : Expression} (h : ∀ slot ∈ e.valueSlots, number' slot = number slot) (b : Block) :
    e.evaluate number' b = e.evaluate number b := by
  cases e with
  | number => rfl
  | constant => rfl
  | arithmetic =>
    unfold evaluate
    rw [h "A" (by simp [valueSlots]), h "B" (by simp [valueSlots])]
  | single =>
    unfold evaluate
    rw [h "NUM" (by simp [valueSlots])]
  | round =>
    unfold evaluate
    rw [h "NUM" (by simp [valueSlots])]
  | text => rfl

namespace Workspace

/-- The workspace with the fields of its blocks exchanged. -/
def refill (ws : Workspace) (f : Block → Dict FieldValue) : Workspace where
  blocks := ws.blocks.map (Block.refill f)
  distinct := by
    rw [Array.toList_map, List.map_map]
    exact ws.distinct

/-- The workspace with other fields in the block that has the id. -/
def setFields (ws : Workspace) (id : BlockId) (fields : Dict FieldValue) : Workspace :=
  ws.refill fun b => if b.id = id then fields else b.fields

variable {ws : Workspace} {f : Block → Dict FieldValue} {opts : Options}
  {followed : Block → Prop} {b c head : Block} {slot : String} {α : Type}

/-! ## The graph is the same -/

@[simp] theorem size_refill : (ws.refill f).size = ws.size := by
  simp [refill, size]

@[simp] theorem ids_refill : (ws.refill f).ids = ws.ids := by
  simp [refill, ids]

@[simp] theorem referenced_refill : (ws.refill f).referenced = ws.referenced := by
  simp [refill, referenced, List.flatMap_map]

@[simp] theorem topIds_refill : (ws.refill f).topIds = ws.topIds := by
  simp [topIds]

theorem find?_refill (id : BlockId) :
    (ws.refill f).find? id = (ws.find? id).map (Block.refill f) := by
  simp [refill, find?, Array.find?_map, Function.comp_def]

/-- Where a reference is followed, the run goes on with the block that has other fields. -/
theorem resolve_refill {origin id : BlockId} {g g' : Block → Except Failure α}
    (h : ∀ c, ws.find? id = some c → g' (c.refill f) = g c) :
    (checked ((ws.refill f).resolve origin id) >>= g') =
      (checked (ws.resolve origin id) >>= g) := by
  unfold resolve
  rw [find?_refill]
  cases hc : ws.find? id with
  | none => rfl
  | some c => exact h c hc

theorem resolveAll_refill (origin : BlockId) (ids : List BlockId) :
    (ws.refill f).resolveAll origin ids =
      (ws.resolveAll origin ids).map (List.map (Block.refill f)) := by
  induction ids with
  | nil => rfl
  | cons id rest ih =>
    rw [resolveAll, resolveAll, ih, resolve, resolve, find?_refill]
    cases ws.find? id with
    | none => rfl
    | some c =>
      cases ws.resolveAll origin rest with
      | error e => rfl
      | ok cs => rfl

/-- The check looks at types and references, and not at fields. -/
theorem validateWithin_refill (bound : Nat) (pending : List Block) (seen : List BlockId) :
    (ws.refill f).validateWithin bound (pending.map (Block.refill f)) seen =
      ws.validateWithin bound pending seen := by
  induction bound generalizing pending seen with
  | zero => rfl
  | succ bound ih =>
    rcases pending with _ | ⟨b, pending⟩
    · rfl
    rw [List.map_cons, validateWithin, validateWithin]
    simp only [Block.refill_id, Block.refill_kind, Block.refill_references, resolveAll_refill]
    split
    · exact ih pending seen
    cases b.kind with
    | error e => rfl
    | ok k =>
      cases ws.resolveAll b.id b.references with
      | error e => rfl
      | ok children =>
        have hchildren := ih (children.reverse ++ pending) (b.id :: seen)
        rw [List.map_append, List.map_reverse] at hchildren
        exact hchildren

theorem validate_refill : (ws.refill f).validate (head.refill f) = ws.validate head := by
  unfold validate
  rw [referenced_refill, Block.refill_references]
  exact validateWithin_refill _ [head] []

/-! ## Values -/

section Values

variable {value value' : Block → Except Failure Scalar}
  (hvalue : ∀ c, ws.Attached b slot c → value' (c.refill f) = value c)
include hvalue

theorem inputBy_refill : (ws.refill f).inputBy value' b slot = ws.inputBy value b slot := by
  unfold inputBy
  split
  · rfl
  · rename_i id hid
    refine resolve_refill fun c hc => ?_
    rw [hvalue c ⟨id, hid, hc⟩]

theorem numberInputBy_refill :
    (ws.refill f).numberInputBy value' b slot = ws.numberInputBy value b slot := by
  unfold numberInputBy
  rw [inputBy_refill hvalue]

end Values

/-- The exchange leaves the fields alone that are read where the given blocks are followed. -/
structure Spares (ws : Workspace) (followed : Block → Prop) (f : Block → Dict FieldValue) :
    Prop where
  /-- What followed links lead to is followed. -/
  follows : ∀ b c, followed b → ws.Follows b c → followed c
  /-- A block in a chain keeps its fields, unless it has a value. -/
  compiled : ∀ b, followed b → (∀ e, b.kind ≠ .ok (.expression e)) → f b = b.fields
  /-- A block that is asked for its value keeps its fields. -/
  asked : ∀ b, ws.Asked followed b → f b = b.fields

namespace Spares

variable (h : ws.Spares followed f)
include h

/-- The induction is on the way along value slots that is left. -/
theorem valueWithin_refill (hb : ws.Asked followed b) (bound : Nat) :
    (ws.refill f).valueWithin bound (b.refill f) = ws.valueWithin bound b := by
  rw [Block.refill_eq_self (h.asked b hb)]
  induction bound generalizing b with
  | zero => rfl
  | succ bound ih =>
    rw [valueWithin, valueWithin]
    cases hkind : b.kind with
    | error e => rfl
    | ok k =>
      cases k with
      | action a => rfl
      | loop l => rfl
      | expression e =>
        refine Expression.evaluate_congr (fun slot hslot => ?_) b
        refine numberInputBy_refill fun c hc => ?_
        have hasked : ws.Asked followed c := ⟨b, slot, hb.reads hkind hslot, hc⟩
        rw [Block.refill_eq_self (h.asked c hasked)]
        exact ih hasked

theorem value_refill (hb : ws.Reads followed b slot) (hc : ws.Attached b slot c) :
    (ws.refill f).value (c.refill f) = ws.value c := by
  unfold value
  rw [size_refill]
  exact h.valueWithin_refill ⟨b, slot, hb, hc⟩ _

theorem input_refill (hb : ws.Reads followed b slot) :
    (ws.refill f).input b slot = ws.input b slot :=
  inputBy_refill fun _ => h.value_refill hb

theorem numberInput_refill (hb : ws.Reads followed b slot) :
    (ws.refill f).numberInput b slot = ws.numberInput b slot :=
  numberInputBy_refill fun _ => h.value_refill hb

theorem numberParam_refill (hb : ws.Reads followed b slot) (default : Float) :
    (ws.refill f).numberParam b slot default = ws.numberParam b slot default := by
  unfold numberParam
  rw [h.numberInput_refill hb]

theorem textParam_refill (hb : ws.Reads followed b slot) (default : String) :
    (ws.refill f).textParam b slot default = ws.textParam b slot default := by
  unfold textParam
  rw [h.input_refill hb]

/-! ## Steps and loops -/

theorem params_refill {a : Action} (hreads : ∀ slot ∈ a.valueSlots, ws.Reads followed b slot) :
    a.params (ws.refill f) b = a.params ws b := by
  cases a with
  | setLaserPower =>
    have hpower := h.numberParam_refill (hreads "POWER" (by simp [Action.valueSlots]))
    have hchannel := h.textParam_refill (hreads "CHANNEL" (by simp [Action.valueSlots]))
    simp only [Action.params, hpower, hchannel]
  | waitTime =>
    have hseconds := h.numberParam_refill (hreads "SECONDS" (by simp [Action.valueSlots]))
    simp only [Action.params, hseconds]
  | acquireFrame =>
    have hchannel := h.textParam_refill (hreads "CHANNEL" (by simp [Action.valueSlots]))
    simp only [Action.params, hchannel]
  | moveStage =>
    have hx := h.numberParam_refill (hreads "X" (by simp [Action.valueSlots]))
    have hy := h.numberParam_refill (hreads "Y" (by simp [Action.valueSlots]))
    have hz := h.numberParam_refill (hreads "Z" (by simp [Action.valueSlots]))
    simp only [Action.params, hx, hy, hz]

theorem step_refill {a : Action} (hb : followed b) (hkind : b.kind = .ok (.action a))
    (hooks : HookTable) : a.step (ws.refill f) hooks b = a.step ws hooks b := by
  unfold Action.step
  rw [h.params_refill fun slot hslot => .param hb hkind nofun hslot]

theorem loopCount_refill {l : Loop} (hb : followed b) (hkind : b.kind = .ok (.loop l)) :
    (ws.refill f).loopCount b l = ws.loopCount b l := by
  cases l with
  | byInput =>
    exact h.numberInput_refill (.param hb hkind nofun (by simp [Kind.valueSlots, Loop.valueSlots]))
  | byField => rfl

omit h in
/-- A body without turns is checked, and the check is the same; a body with turns is followed. -/
theorem unrollOutcome_refill {body body' : Block → Except Failure (List Step)} {l : Loop}
    {count : Option Float} (hbody : ∀ c, ws.Follows b c → body' (c.refill f) = body c)
    (hkind : b.kind = .ok (.loop l)) (hcount : ws.loopCount b l = .ok count) (limit : Nat) :
    (ws.refill f).unrollOutcome limit body' b count = ws.unrollOutcome limit body b count := by
  have hfinite := finiteCount_of_loopCount hcount
  rcases hid : b.statements.get? Kind.bodySlot with _ | id
  · rw [unrollOutcome, unrollOutcome, hid]
  · rw [unrollOutcome_of_body hid hfinite, unrollOutcome_of_body hid hfinite]
    refine resolve_refill fun c hc => ?_
    split
    · rw [validate_refill]
    · rename_i hturns
      rw [hbody c (.body hkind ⟨id, hid, hc⟩ hcount hturns)]

theorem contributionOutcome_refill {body body' : Block → Except Failure (List Step)}
    (hb : followed b) (hbody : ∀ c, ws.Follows b c → body' (c.refill f) = body c) :
    (ws.refill f).contributionOutcome opts body' (b.refill f) =
      ws.contributionOutcome opts body b := by
  rw [contributionOutcome, contributionOutcome, Block.refill_kind]
  cases hkind : b.kind with
  | error e => rfl
  | ok k =>
    -- Only a value in a chain can have other fields, and it contributes nothing.
    have hself : (∀ e, k ≠ .expression e) → b.refill f = b := by
      intro hk
      refine Block.refill_eq_self (h.compiled b hb fun e he => ?_)
      exact hk e (kind_unique hkind he)
    simp only [checked_ok, ok_bind]
    cases k with
    | expression e => rfl
    | action a =>
      dsimp only
      rw [hself nofun, h.step_refill hb hkind]
    | loop l =>
      dsimp only
      rw [hself nofun, h.loopCount_refill hb hkind]
      cases hcount : ws.loopCount b l with
      | error e => rfl
      | ok count => exact unrollOutcome_refill hbody hkind hcount opts.maxSteps

/-! ## Chains -/

theorem walkOutcome_refill {part part' : Block → Except Failure (List Step)}
    (hpart : ∀ c, followed c → part' (c.refill f) = part c) (hb : followed b)
    (limit bound done : Nat) :
    (ws.refill f).walkOutcome limit part' bound done (b.refill f) =
      ws.walkOutcome limit part bound done b := by
  induction bound generalizing done b with
  | zero => rfl
  | succ bound ih =>
    rw [walkOutcome, walkOutcome, hpart b hb]
    cases part b with
    | error e => rfl
    | ok more =>
      simp only [ok_bind, Block.refill_id, Block.refill_next]
      cases checkLimit limit (done + more.length) b.id with
      | error e => rfl
      | ok _ =>
        cases hnext : b.next with
        | none => rfl
        | some id =>
          refine resolve_refill fun c hc => ?_
          rw [ih (h.follows b c hb (.next ⟨id, hnext, hc⟩))]

theorem chainOutcome_refill (hhead : followed head) (nest : Nat) :
    (ws.refill f).chainOutcome opts nest (head.refill f) = ws.chainOutcome opts nest head := by
  induction nest generalizing head with
  | zero => rfl
  | succ nest ih =>
    rw [chainOutcome, chainOutcome, walkBound, walkBound, size_refill]
    refine h.walkOutcome_refill (fun b hb => ?_) hhead _ _ _
    exact h.contributionOutcome_refill hb fun c hc => ih (h.follows b c hb hc)

theorem chainsOutcome_refill {heads : List BlockId}
    (hheads : ∀ id ∈ heads, ∀ head, ws.find? id = some head → followed head) (done : Nat) :
    (ws.refill f).chainsOutcome opts done heads = ws.chainsOutcome opts done heads := by
  induction heads generalizing done with
  | nil => rfl
  | cons id rest ih =>
    rw [List.forall_mem_cons] at hheads
    rw [chainsOutcome, chainsOutcome]
    refine resolve_refill fun head hhead => ?_
    rw [nestBound, nestBound, size_refill, h.chainOutcome_refill (hheads.1 head hhead)]
    simp only [ih hheads.2]

end Spares

/-- Where what is read keeps its fields, compiling gives the same. -/
theorem Spares.compile_refill (h : ws.Spares ws.Visited f) :
    (ws.refill f).compile opts = ws.compile opts := by
  rw [compile, compile, compileFrom_eq, compileFrom_eq, topIds_refill]
  rw [h.chainsOutcome_refill fun id hid head hhead => ⟨id, hid, head, hhead, .refl⟩]

/-! ## Places that are not read -/

/-- A block that has a value and stands in a chain: at the top, behind a block, or first in a
body. -/
structure StraysInChain (ws : Workspace) (b : Block) : Prop where
  /-- The block has a value. -/
  expression : ∃ e, b.kind = .ok (.expression e)
  /-- It stands where chains begin or go on. -/
  place : b.id ∈ ws.topIds ∨ ∃ a ∈ ws.blocks, ws.ComesNext a b ∨ ws.HeadsBody a b

/-- Only blocks of the workspace are read. -/
theorem Reads.mem (hfollowed : ∀ b, followed b → b ∈ ws.blocks)
    (h : ws.Reads followed b slot) : b ∈ ws.blocks := by
  cases h with
  | param hb => exact hfollowed b hb
  | operand _ hattached => exact hattached.refersTo.mem

section Forest

variable {forest : List Tree}

/-- A block that stands in a chain is attached to no value slot: no other block refers to it. -/
theorem Lists.not_attached_of_straysInChain (h : ws.Lists forest) (hc : c ∈ ws.blocks)
    (hstrays : ws.StraysInChain c) (hb : b ∈ ws.blocks) : ¬ ws.Attached b slot c := by
  intro hattached
  rcases hstrays.place with htop | ⟨a, ha, hlink⟩
  · exact not_refersTo_top htop (find?_of_mem hc) hb hattached.refersTo
  · have hac : ws.RefersTo a c := hlink.elim ComesNext.refersTo HeadsBody.refersTo
    obtain rfl := h.parent_unique_of_refersTo hb ha hattached.refersTo hac
    exact h.not_linked_of_attached hb hattached hlink

/-- A value slot does not lead into a body without turns. -/
theorem Lists.not_inIdleBody_of_attached (h : ws.Lists forest) (hb : b ∈ ws.blocks)
    (hattached : ws.Attached b slot c) (hout : ¬ ws.InIdleBody b) : ¬ ws.InIdleBody c := by
  rintro ⟨r, hr, l, count, head, hkind, hcount, hturns, hbody, hreaches⟩
  rcases hreaches.cases_tail with rfl | ⟨m, hm, hmc⟩
  · obtain rfl := h.parent_unique_of_refersTo hb hr hattached.refersTo hbody.refersTo
    exact h.not_linked_of_attached hb hattached (.inr hbody)
  · have hmem : m ∈ ws.blocks := by
      rcases hm.cases_tail with rfl | ⟨d, -, hdm⟩
      · exact hbody.refersTo.mem
      · exact hdm.mem
    obtain rfl := h.parent_unique_of_refersTo hmem hb hmc hattached.refersTo
    exact hout ⟨r, hr, l, count, head, hkind, hcount, hturns, hbody, hm⟩

/-- What is read is in no body without turns.  The induction is along value slots, from a block in a
chain that is followed. -/
theorem Lists.not_inIdleBody_of_reads (h : ws.Lists forest) (hb : ws.Reads ws.Visited b slot) :
    ¬ ws.InIdleBody b := by
  induction hb with
  | param hb => exact h.not_inIdleBody_of_visited hb
  | operand ha hattached _ _ ih =>
    exact h.not_inIdleBody_of_attached (ha.mem fun _ => Visited.mem) hattached ih

/-- New fields in one of these places spare all that is read. -/
theorem Lists.spares_of_unread (h : ws.Lists forest) (hb : b ∈ ws.blocks)
    (hplace : ws.StraysInChain b ∨ ws.InIdleBody b) (fields : Dict FieldValue) :
    ws.Spares ws.Visited fun c => if c.id = b.id then fields else c.fields := by
  have hother : ∀ c ∈ ws.blocks, c ≠ b → c.id ≠ b.id :=
    fun c hc hne hid => hne (block_unique hc hb hid)
  refine ⟨fun _ _ => Visited.follows, fun c hc hcompiled => ?_, fun c hc => ?_⟩
  · refine if_neg (hother c hc.mem ?_)
    rintro rfl
    rcases hplace with hstrays | hidle
    · obtain ⟨e, hkind⟩ := hstrays.expression
      exact hcompiled e hkind
    · exact h.not_inIdleBody_of_visited hc hidle
  · obtain ⟨a, slot, hreads, hattached⟩ := hc
    have ha : a ∈ ws.blocks := hreads.mem fun _ => Visited.mem
    refine if_neg (hother c hattached.refersTo.mem ?_)
    rintro rfl
    rcases hplace with hstrays | hidle
    · exact h.not_attached_of_straysInChain hb hstrays ha hattached
    · exact h.not_inIdleBody_of_attached ha hattached (h.not_inIdleBody_of_reads hreads) hidle

end Forest

/-- **Literals that are not evaluated do not matter.**  In a loaded workspace, let a block have a
value and stand in a chain, or be of any kind and, at whatever depth, in the body of a loop without
turns.  Then compiling gives the same document or the same error whatever is in its fields. -/
theorem compile_setFields {order : TopOrder} {text : String} (h : ofText order text = .ok ws)
    (hb : b ∈ ws.blocks) (hplace : ws.StraysInChain b ∨ ws.InIdleBody b)
    (fields : Dict FieldValue) (opts : Options) :
    (ws.setFields b.id fields).compile opts = ws.compile opts := by
  obtain ⟨blocks, -, hlists⟩ := lists_of_ofText h
  exact (hlists.spares_of_unread hb hplace fields).compile_refill

/-- A text with a number in a chain, before a loop without turns around a loop with two. -/
def idleText : String := "\x7b\"blocks\": \x7b\"blocks\": [
  \x7b\"type\": \"math_number\", \"id\": \"n\", \"fields\": \x7b\"NUM\": 1\x7d,
    \"next\": \x7b\"block\": \x7b\"type\": \"controls_repeat\", \"id\": \"r\",
      \"fields\": \x7b\"TIMES\": 0\x7d, \"inputs\": \x7b\"DO\": \x7b\"block\":
        \x7b\"type\": \"controls_repeat\", \"id\": \"q\", \"fields\": \x7b\"TIMES\": 2\x7d,
          \"inputs\": \x7b\"DO\": \x7b\"block\":
            \x7b\"type\": \"wait_time_block\", \"id\": \"w\"\x7d\x7d\x7d
          \x7d\x7d\x7d\x7d\x7d\x7d]\x7d\x7d"

/-- The blocks of `idleText`. -/
def idleNest : Workspace where
  blocks := #[
    { id := "n", type := "math_number", fields := .ofList [("NUM", .number 1)], next := some "r" },
    { id := "w", type := "wait_time_block" },
    { id := "q", type := "controls_repeat", fields := .ofList [("TIMES", .number 2)],
      statements := .ofList [("DO", "w")] },
    { id := "r", type := "controls_repeat", fields := .ofList [("TIMES", .number 0)],
      statements := .ofList [("DO", "q")] }]

set_option maxRecDepth 5000 in
theorem ofText_idleText : ofText .asListed idleText = .ok idleNest := by
  apply eq_ok_of_toOption
  rw [ofText, SavedBlock.ofText, Json.readFrom,
    Json.Draft.ofText_eq (show idleText = String.ofList _ by exact rfl)]
  decide +kernel

/-- Neither a text for the number nor a million turns for the inner loop make a difference. -/
theorem compile_setFields_idleNest :
    idleNest.StraysInChain idleNest.blocks[0] ∧ idleNest.InIdleBody idleNest.blocks[2] ∧
      idleNest.compile {} = .ok ⟨[]⟩ ∧
      (idleNest.setFields "n" (.ofList [("NUM", .text "many")])).compile {} =
        idleNest.compile {} ∧
      (idleNest.setFields "q" (.ofList [("TIMES", .number 1000000)])).compile {} =
        idleNest.compile {} := by
  have hstrays : idleNest.StraysInChain idleNest.blocks[0] :=
    ⟨⟨.number, by decide +kernel⟩, .inl (by decide +kernel)⟩
  have hidle : idleNest.InIdleBody idleNest.blocks[2] :=
    ⟨idleNest.blocks[3], by simp [idleNest], .byField, some 0, idleNest.blocks[2],
      by decide +kernel, by decide +kernel, by decide +kernel,
      ⟨"q", by decide +kernel, by decide +kernel⟩, .refl⟩
  have hn : idleNest.blocks[0] ∈ idleNest.blocks := by simp [idleNest]
  have hq : idleNest.blocks[2] ∈ idleNest.blocks := by simp [idleNest]
  exact ⟨hstrays, hidle, by decide +kernel,
    compile_setFields ofText_idleText hn (.inl hstrays) (.ofList [("NUM", .text "many")]) {},
    compile_setFields ofText_idleText hq (.inr hidle) (.ofList [("TIMES", .number 1000000)]) {}⟩

end Workspace

end BlockSteps

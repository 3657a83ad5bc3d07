import Mathlib
import BlockSteps.Proofs.Compile.Followed
import BlockSteps.Proofs.Workspace.TopBlocks

/-!
# Which actions become steps

Loading takes a block wherever it hangs: in an input of any name, or behind a block that has a
value.  The compiler looks at less.  From the top blocks it **follows** the next links and the
bodies of loops that are run (`Follows`), and for the blocks that it comes to it asks for the values
in the slots that their kind reads (`Kind.valueSlots`).

Along a link that it looks at, nothing is lost: an action in a chain is compiled, and an action
where a value is asked for is refused.  Two things remain for an action that is in the workspace and
gives no step.  It stands in the body of a loop without turns (`InIdleBody`), or it hangs below a
link that the compiler does not look at (`Overlooked`), of which there are three:

* an input of a name that the kind of the block does not read;
* an input of a block that has a value but stands in a chain, because its value is not asked for;
* the next link of a block in a value slot.

**How it is proved.**  Every block can be reached from a top block by references.  `Placed` lists
what can have become of a block on that way, and one more reference leads from each case to one of
them (`placed_of_visited`, `placed_of_valued`).  In the other direction, a block of a forest can be
reached in one way only, so what the compiler comes to lies below no link that it does not follow.

**Main statement.**  `writtenFrom_iff_of_compile`: in a compiled workspace an action is the source
of some step exactly if it is in no body that is not run and below no link that is not looked at.
-/

namespace BlockSteps

/-! ## Slots that are read -/

/-- The slots whose values are parameters of the action. -/
def Action.valueSlots : Action → List String
  | .setLaserPower => ["POWER", "CHANNEL"]
  | .waitTime => ["SECONDS"]
  | .acquireFrame => ["CHANNEL"]
  | .moveStage => ["X", "Y", "Z"]

/-- The slot whose value is the count of the loop, if it has one. -/
def Loop.valueSlots : Loop → List String
  | .byInput => ["TIMES"]
  | .byField => []

/-- The slots whose values are operands of the expression. -/
def Expression.valueSlots : Expression → List String
  | .arithmetic => ["A", "B"]
  | .single => ["NUM"]
  | .round => ["NUM"]
  | .number => []
  | .constant => []
  | .text => []

/-- The value slots that are read for a block of the kind. -/
def Kind.valueSlots : Kind → List String
  | .action a => a.valueSlots
  | .loop l => l.valueSlots
  | .expression e => e.valueSlots

/-- The operands of an expression that has a value are numbers. -/
theorem Expression.exists_number_of_evaluate {number : String → Except Failure (Option Float)}
    {b : Block} {e : Expression} {v : Scalar} (h : e.evaluate number b = .ok v) {slot : String}
    (hslot : slot ∈ e.valueSlots) : ∃ n, number slot = .ok n := by
  cases e with
  | arithmetic =>
    obtain ⟨x, hx, h⟩ := bind_eq_ok_iff.mp h
    obtain ⟨y, hy, -⟩ := bind_eq_ok_iff.mp h
    obtain rfl | rfl : slot = "A" ∨ slot = "B" := by simpa [valueSlots] using hslot
    · exact ⟨x, hx⟩
    · exact ⟨y, hy⟩
  | single =>
    obtain ⟨x, hx, -⟩ := bind_eq_ok_iff.mp h
    obtain rfl := List.mem_singleton.mp hslot
    exact ⟨x, hx⟩
  | round =>
    obtain ⟨x, hx, -⟩ := bind_eq_ok_iff.mp h
    obtain rfl := List.mem_singleton.mp hslot
    exact ⟨x, hx⟩
  | number => exact absurd hslot List.not_mem_nil
  | constant => exact absurd hslot List.not_mem_nil
  | text => exact absurd hslot List.not_mem_nil

namespace Workspace

/-! ## Where nothing is compiled -/

/-- The links that are not looked at. -/
inductive Overlooks (ws : Workspace) : Block → Block → Prop where
  /-- An input that the kind of the block does not read. -/
  | unread {b c : Block} {k : Kind} {slot : String} (hkind : b.kind = .ok k)
      (hslot : slot ∉ k.valueSlots) (hattached : ws.Attached b slot c) : Overlooks ws b c
  /-- An input of a block that has a value and stands in a chain. -/
  | stray {b c : Block} {e : Expression} {slot : String} (hkind : b.kind = .ok (.expression e))
      (hvisited : ws.Visited b) (hattached : ws.Attached b slot c) : Overlooks ws b c
  /-- What comes next after a block in a value slot. -/
  | behindValue {a b c : Block} {slot : String} (ha : a ∈ ws.blocks)
      (hattached : ws.Attached a slot b) (hnext : ws.ComesNext b c) : Overlooks ws b c

/-- The block hangs, at whatever depth, below a link that is not looked at. -/
def Overlooked (ws : Workspace) (b : Block) : Prop :=
  ∃ x ∈ ws.blocks, ∃ y, ws.Overlooks x y ∧ Relation.ReflTransGen ws.RefersTo y b

/-- The block is, at whatever depth, in the body of a loop without turns. -/
def InIdleBody (ws : Workspace) (b : Block) : Prop :=
  ∃ r ∈ ws.blocks, ∃ l count head, r.kind = .ok (.loop l) ∧ ws.loopCount r l = .ok count ∧
    turns count = 0 ∧ ws.HeadsBody r head ∧ Relation.ReflTransGen ws.RefersTo head b

variable {ws : Workspace} {b c : Block} {slot : String}

theorem Overlooks.refersTo (h : ws.Overlooks b c) : ws.RefersTo b c := by
  cases h with
  | unread _ _ hattached => exact hattached.refersTo
  | stray _ _ hattached => exact hattached.refersTo
  | behindValue _ _ hnext => exact hnext.refersTo

section Forest

variable {forest : List Tree}

/-- What is visited is in no body without turns: the way to it would lead into that body. -/
theorem Lists.not_inIdleBody_of_visited (h : ws.Lists forest) (hb : ws.Visited b) :
    ¬ ws.InIdleBody b := by
  rintro ⟨r, hr, l, count, head, hkind, hcount, hturns, hbody, hreaches⟩
  have hhead := h.visited_of_reaches hbody.refersTo.mem hreaches hb
  obtain ⟨-, hfollows⟩ := h.visited_of_refersTo hr hbody.refersTo hhead
  exact h.not_follows_of_idle hr hkind hcount hturns hbody hfollows

/-- What is visited hangs below no link that is not looked at, because every reference on the way to
it is followed. -/
theorem Lists.not_overlooked_of_visited (h : ws.Lists forest) (hb : ws.Visited b) :
    ¬ ws.Overlooked b := by
  rintro ⟨x, hx, y, hxy, hreaches⟩
  have hy := h.visited_of_reaches hxy.refersTo.mem hreaches hb
  obtain ⟨hvisited, hfollows⟩ := h.visited_of_refersTo hx hxy.refersTo hy
  cases hxy with
  | unread _ _ hattached => exact h.not_follows_of_attached hx hattached hfollows
  | stray _ _ hattached => exact h.not_follows_of_attached hx hattached hfollows
  | behindValue ha hattached =>
    obtain ⟨-, hfollows⟩ := h.visited_of_refersTo ha hattached.refersTo hvisited
    exact h.not_follows_of_attached ha hattached hfollows

end Forest

/-! ## What is asked for has a value -/

/-- The value of the block is found on a way of some length. -/
def Valued (ws : Workspace) (b : Block) : Prop := ∃ bound v, ws.valueWithin bound b = .ok v

/-- If an id stands in the slot, it is that of a block whose value is found. -/
def SlotValued (ws : Workspace) (b : Block) (slot : String) : Prop :=
  ∀ id, b.values.get? slot = some id → ∃ c, ws.find? id = some c ∧ ws.Valued c

theorem SlotValued.valued (h : ws.SlotValued b slot) (hc : ws.Attached b slot c) :
    ws.Valued c := by
  obtain ⟨id, hid, hc⟩ := hc
  obtain ⟨d, hd, hvalued⟩ := h id hid
  obtain rfl := Option.some.inj (hd.symm.trans hc)
  exact hvalued

theorem slotValued_of_inputBy {bound : Nat} {v : Option Scalar}
    (h : ws.inputBy (ws.valueWithin bound) b slot = .ok v) : ws.SlotValued b slot := by
  intro id hid
  unfold inputBy at h
  rw [hid] at h
  obtain ⟨c, hc, h⟩ := bind_eq_ok_iff.mp h
  obtain ⟨x, hx, -⟩ := bind_eq_ok_iff.mp h
  exact ⟨c, resolve_eq_ok_iff.mp (checked_eq_ok_iff.mp hc), bound, x, hx⟩

theorem slotValued_of_numberInputBy {bound : Nat} {n : Option Float}
    (h : ws.numberInputBy (ws.valueWithin bound) b slot = .ok n) : ws.SlotValued b slot := by
  obtain ⟨v, hv, -⟩ := bind_eq_ok_iff.mp h
  exact slotValued_of_inputBy hv

theorem slotValued_of_numberParam {default x : Float}
    (h : ws.numberParam b slot default = .ok x) : ws.SlotValued b slot := by
  obtain ⟨n, hn, -⟩ := bind_eq_ok_iff.mp h
  exact slotValued_of_numberInputBy hn

theorem slotValued_of_textParam {default t : String} (h : ws.textParam b slot default = .ok t) :
    ws.SlotValued b slot := by
  obtain ⟨v, hv, -⟩ := bind_eq_ok_iff.mp h
  exact slotValued_of_inputBy hv

/-- What is attached to a slot that an action reads has a value if the action has its step. -/
theorem slotValued_of_step {hooks : HookTable} {a : Action} {s : Step}
    (h : a.step ws hooks b = .ok s) (hslot : slot ∈ a.valueSlots) : ws.SlotValued b slot := by
  obtain ⟨params, hparams, -⟩ := Action.step_eq_ok_iff.mp h
  cases a with
  | setLaserPower =>
    obtain ⟨power, hpower, h⟩ := bind_eq_ok_iff.mp hparams
    obtain ⟨channel, hchannel, -⟩ := bind_eq_ok_iff.mp h
    obtain rfl | rfl : slot = "POWER" ∨ slot = "CHANNEL" := by
      simpa [Action.valueSlots] using hslot
    · exact slotValued_of_numberParam hpower
    · exact slotValued_of_textParam hchannel
  | waitTime =>
    obtain ⟨seconds, hseconds, -⟩ := bind_eq_ok_iff.mp hparams
    obtain rfl := List.mem_singleton.mp hslot
    exact slotValued_of_numberParam hseconds
  | acquireFrame =>
    obtain ⟨channel, hchannel, -⟩ := bind_eq_ok_iff.mp hparams
    obtain rfl := List.mem_singleton.mp hslot
    exact slotValued_of_textParam hchannel
  | moveStage =>
    obtain ⟨x, hx, h⟩ := bind_eq_ok_iff.mp hparams
    obtain ⟨y, hy, h⟩ := bind_eq_ok_iff.mp h
    obtain ⟨z, hz, -⟩ := bind_eq_ok_iff.mp h
    obtain rfl | rfl | rfl : slot = "X" ∨ slot = "Y" ∨ slot = "Z" := by
      simpa [Action.valueSlots] using hslot
    · exact slotValued_of_numberParam hx
    · exact slotValued_of_numberParam hy
    · exact slotValued_of_numberParam hz

theorem slotValued_of_loopCount {l : Loop} {count : Option Float}
    (h : ws.loopCount b l = .ok count) (hslot : slot ∈ l.valueSlots) : ws.SlotValued b slot := by
  cases l with
  | byInput =>
    obtain rfl := List.mem_singleton.mp hslot
    exact slotValued_of_numberInputBy h
  | byField => exact absurd hslot List.not_mem_nil

variable {opts : Options}

/-- What is read for a block in a chain has a value if the block was compiled. -/
theorem Walked.slotValued (h : ws.Walked opts b) {k : Kind} (hkind : b.kind = .ok k)
    (hcategory : k.category ≠ .value) (hslot : slot ∈ k.valueSlots) : ws.SlotValued b slot := by
  obtain ⟨nest, steps, hcontribution⟩ := h.exists_contribution
  obtain ⟨e, hk, -⟩ | ⟨a, s, hk, hstep, -⟩ | ⟨l, count, hk, hcount, -⟩ :=
    contributionOutcome_eq_ok hcontribution
  · cases kind_unique hkind hk
    exact absurd rfl hcategory
  · cases kind_unique hkind hk
    exact slotValued_of_step hstep hslot
  · cases kind_unique hkind hk
    exact slotValued_of_loopCount hcount hslot

/-- Only expressions have values, and what is attached to their operands has one, too. -/
theorem Valued.expression (h : ws.Valued b) :
    ∃ e, b.kind = .ok (.expression e) ∧ ∀ slot ∈ e.valueSlots, ws.SlotValued b slot := by
  obtain ⟨bound, v, h⟩ := h
  cases bound with
  | zero => cases h
  | succ bound =>
    obtain ⟨k, hk, h⟩ := bind_eq_ok_iff.mp h
    rw [show b.kind = .ok k from checked_eq_ok_iff.mp hk]
    cases k with
    | action a => cases h
    | loop l => cases h
    | expression e =>
      refine ⟨e, rfl, fun slot hslot => ?_⟩
      obtain ⟨n, hn⟩ := e.exists_number_of_evaluate h hslot
      exact slotValued_of_numberInputBy hn

/-! ## What can have become of a block -/

/-- The places of blocks in a compiled workspace. -/
inductive Placed (ws : Workspace) (b : Block) : Prop where
  /-- Its steps are collected. -/
  | visited (h : ws.Visited b)
  /-- It is in a value slot and its value was found. -/
  | valued {a : Block} {slot : String} (ha : a ∈ ws.blocks) (hattached : ws.Attached a slot b)
      (hvalued : ws.Valued b)
  /-- It is in the body of a loop without turns. -/
  | idle (h : ws.InIdleBody b)
  /-- It is below a link that is not looked at. -/
  | overlooked (h : ws.Overlooked b)

/-- A link that is not looked at leads to what is overlooked. -/
theorem Overlooks.placed (h : ws.Overlooks b c) (hb : b ∈ ws.blocks) : ws.Placed c :=
  .overlooked ⟨b, hb, c, h, .refl⟩

/-- From a block whose steps are collected: its next block and its body are followed, unless the
body has no turns, and what its kind reads has a value. -/
theorem Lists.placed_of_visited {forest : List Tree} (h : ws.Lists forest)
    (hwalked : ws.Walked opts b) (hb : ws.Visited b) (hbc : ws.RefersTo b c) : ws.Placed c := by
  have hmem := hb.mem
  rcases h.link_cases hmem hbc with ⟨slot, hattached⟩ | ⟨l, hkind, hbody⟩ | hnext
  · -- What is in a value slot was asked for, unless the block is a value or the slot is not read.
    obtain ⟨k, hkind⟩ := hwalked.kind
    by_cases hslot : slot ∈ k.valueSlots
    · cases k with
      | expression e => exact (Overlooks.stray hkind hb hattached).placed hmem
      | action a =>
        exact .valued hmem hattached ((hwalked.slotValued hkind nofun hslot).valued hattached)
      | loop l =>
        exact .valued hmem hattached ((hwalked.slotValued hkind nofun hslot).valued hattached)
    · exact (Overlooks.unread hkind hslot hattached).placed hmem
  · obtain ⟨id, hid, hc⟩ := hbody
    have hbody : ws.HeadsBody b c := ⟨id, hid, hc⟩
    obtain ⟨-, count, -, hcount, -⟩ := hwalked.exists_body hkind hid
    by_cases hturns : turns count = 0
    · exact .idle ⟨b, hmem, l, count, c, hkind, hcount, hturns, hbody, .refl⟩
    · exact .visited (hb.follows (.body hkind hbody hcount hturns))
  · exact .visited (hb.follows (.next hnext))

/-- From a block in a value slot: its operands have values, and it has no body. -/
theorem Lists.placed_of_valued {forest : List Tree} (h : ws.Lists forest) {a : Block}
    (ha : a ∈ ws.blocks) (hattached : ws.Attached a slot b) (hb : ws.Valued b)
    (hbc : ws.RefersTo b c) : ws.Placed c := by
  have hmem := hattached.refersTo.mem
  obtain ⟨e, hkind, hoperands⟩ := hb.expression
  rcases h.link_cases hmem hbc with ⟨slot', hc⟩ | ⟨l, hk, -⟩ | hnext
  · by_cases hslot : slot' ∈ e.valueSlots
    · exact .valued hmem hc ((hoperands slot' hslot).valued hc)
    · exact (Overlooks.unread hkind hslot hc).placed hmem
  · cases kind_unique hkind hk
  · exact (Overlooks.behindValue ha hattached hnext).placed hmem

/-- Every block of a compiled workspace is in one of these places.  The induction is along the
references that lead to it from a top block. -/
theorem Lists.placed {forest : List Tree} (h : ws.Lists forest) {steps : List Step}
    (hsteps : ws.chainsOutcome opts 0 ws.topIds = .ok steps) (hb : b ∈ ws.blocks) :
    ws.Placed b := by
  obtain ⟨top, htop, head, hhead, hreaches⟩ :=
    exists_top_reaches_of_acyclic h.acyclic hb
  induction hreaches with
  | refl => exact .visited ⟨top, htop, head, hhead, .refl⟩
  | @tail m c hm hmc ih =>
    have hmem : m ∈ ws.blocks := by
      rcases hm.cases_tail with rfl | ⟨a, -, ham⟩
      · exact mem_of_find? hhead
      · exact ham.mem
    cases ih hmem with
    | visited hvisited => exact h.placed_of_visited (hvisited.walked hsteps) hvisited hmc
    | valued ha hattached hvalued => exact h.placed_of_valued ha hattached hvalued hmc
    | idle hidle =>
      obtain ⟨r, hr, l, count, start, hkind, hcount, hturns, hbody, hreaches⟩ := hidle
      exact .idle ⟨r, hr, l, count, start, hkind, hcount, hturns, hbody, hreaches.tail hmc⟩
    | overlooked hoverlooked =>
      obtain ⟨x, hx, y, hxy, hreaches⟩ := hoverlooked
      exact .overlooked ⟨x, hx, y, hxy, hreaches.tail hmc⟩

/-! ## Steps and places -/

/-- **No action is lost but for two reasons.**  In a loaded workspace that compiles, an action is
the source of some step of the document exactly if it is in the body of no loop without turns, and
hangs below no link that the compiler does not look at. -/
theorem writtenFrom_iff_of_compile {order : TopOrder} {text : String} {doc : Document}
    (h : ofText order text = .ok ws) (hdoc : ws.compile opts = .ok doc) {a : Action}
    (hb : b ∈ ws.blocks) (hkind : b.kind = .ok (.action a)) :
    (∃ s ∈ doc.steps, ws.WrittenFrom opts b s) ↔ ¬ ws.InIdleBody b ∧ ¬ ws.Overlooked b := by
  obtain ⟨blocks, -, hlists⟩ := lists_of_ofText h
  obtain ⟨steps, hsteps, rfl⟩ := compileFrom_eq_ok hdoc
  obtain ⟨chains, hchains, rfl⟩ := headMeans_of_chainsOutcome hsteps
  have hvisited := hlists.exists_step_iff_visited hchains hb hkind
  constructor
  · rintro ⟨written, hwritten, hfrom⟩
    obtain ⟨s, hs, rfl⟩ := List.mem_map.mp hwritten
    have hb := hvisited.mp ⟨s, hs, hfrom.id_eq⟩
    exact ⟨hlists.not_inIdleBody_of_visited hb, hlists.not_overlooked_of_visited hb⟩
  · rintro ⟨hidle, hoverlooked⟩
    cases hlists.placed hsteps hb with
    | visited hb' =>
      obtain ⟨s, hs, hid⟩ := hvisited.mpr hb'
      have hmakes := makes_of_id hchains hb s hs hid
      exact ⟨s.rendered opts.ids, List.mem_map_of_mem hs, hmakes.writtenFrom⟩
    | valued _ _ hvalued =>
      -- An action where a value is asked for has none, and nothing would have been compiled.
      obtain ⟨e, hexpression, -⟩ := hvalued.expression
      cases kind_unique hkind hexpression
    | idle hidle' => exact absurd hidle' hidle
    | overlooked hoverlooked' => exact absurd hoverlooked' hoverlooked

theorem writtenFrom_iff_twoChains :
    ofText .asListed twoChainsText = .ok twoChains ∧
      twoChains.compile { ids := .indexed } = .ok twoChainsDocument ∧
      ∃ b ∈ twoChains.blocks, b.id = "w" ∧ b.kind = .ok (.action .waitTime) ∧
        ((∃ s ∈ twoChainsDocument.steps, twoChains.WrittenFrom { ids := .indexed } b s) ↔
          ¬ twoChains.InIdleBody b ∧ ¬ twoChains.Overlooked b) := by
  have hdoc : twoChains.compile { ids := .indexed } = .ok twoChainsDocument := by decide +kernel
  have hmem : { id := "w", type := "wait_time_block" } ∈ twoChains.blocks := by
    simp [twoChains]
  have hkind : Block.kind { id := "w", type := "wait_time_block" } = .ok (.action .waitTime) := by
    decide
  exact ⟨ofText_twoChainsText, hdoc, _, hmem, rfl, hkind,
    writtenFrom_iff_of_compile ofText_twoChainsText hdoc hmem hkind⟩

/-- A wait with another wait in an input that waits do not have. -/
def extraInputText : String := "\x7b\"blocks\": \x7b\"blocks\": [
  \x7b\"type\": \"wait_time_block\", \"id\": \"a\", \"inputs\": \x7b\"EXTRA\": \x7b\"block\":
    \x7b\"type\": \"wait_time_block\", \"id\": \"b\"\x7d\x7d\x7d\x7d]\x7d\x7d"

/-- The blocks of `extraInputText`. -/
def extraInput : Workspace where
  blocks := #[
    { id := "b", type := "wait_time_block" },
    { id := "a", type := "wait_time_block", values := .ofList [("EXTRA", "b")] }]

/-- The document of `extraInput`: the outer wait alone. -/
def extraInputDocument : Document :=
  ⟨[{ id := "a", stepName := "Wait Time", mainFunc := "wait_time",
      mainParams := .ofList [("seconds", .number 1)] }]⟩

set_option maxRecDepth 5000 in
/-- Actions are lost where no loop is to blame. -/
theorem lost_extraInput :
    ofText .asListed extraInputText = .ok extraInput ∧
      extraInput.compile {} = .ok extraInputDocument ∧
      ∃ b ∈ extraInput.blocks, b.kind = .ok (.action .waitTime) ∧ ¬ extraInput.InIdleBody b ∧
        ∀ s ∈ extraInputDocument.steps, ¬ extraInput.WrittenFrom {} b s := by
  refine ⟨?_, by decide +kernel, { id := "b", type := "wait_time_block" }, by simp [extraInput],
    by decide, ?_, ?_⟩
  · apply eq_ok_of_toOption
    rw [ofText, SavedBlock.ofText, Json.readFrom,
      Json.Draft.ofText_eq (show extraInputText = String.ofList _ by exact rfl)]
    decide +kernel
  · rintro ⟨r, hr, l, -, -, hkind, -⟩
    have hactions : ∀ r ∈ extraInput.blocks, r.kind = .ok (.action .waitTime) := by decide
    cases kind_unique hkind (hactions r hr)
  · intro s hs hfrom
    obtain rfl := List.mem_singleton.mp hs
    exact absurd hfrom.2 (by decide)

end Workspace

end BlockSteps

import Mathlib
import BlockSteps.Proofs.Compile.Copies

/-!
# Links that the compiler follows

From the top blocks the compiler follows the next links, to the end of each chain, and the bodies of
loops that have turns (`Follows`).  The blocks that it comes to in this way are **visited**.  Three
things are known of them:

* They are compiled: a document says that the chain of each was walked along with success
  (`Visited.walked`).
* They are what chains hold inside loops with turns (`exists_chainHolds_of_follows`,
  `follows_of_chainHolds`), so among the actions they are those that steps come from
  (`Lists.exists_step_iff_visited`).
* In a loaded workspace a block is reached in one way only.  So every reference on a way to a
  visited block is a followed link (`Lists.visited_of_reaches`, `Lists.visited_of_refersTo`).  What
  is in a value slot or in a body without turns is not followed (`Lists.not_follows_of_attached`,
  `Lists.not_follows_of_idle`).
-/

namespace BlockSteps.Workspace

/-! ## Links -/

/-- The second block is attached to a value slot of the first. -/
def Attached (ws : Workspace) (b : Block) (slot : String) (c : Block) : Prop :=
  ∃ id, b.values.get? slot = some id ∧ ws.find? id = some c

/-- The second block is the first of the body of the first. -/
def HeadsBody (ws : Workspace) (b c : Block) : Prop :=
  ∃ id, b.statements.get? Kind.bodySlot = some id ∧ ws.find? id = some c

/-- The second block comes next after the first. -/
def ComesNext (ws : Workspace) (b c : Block) : Prop :=
  ∃ id, b.next = some id ∧ ws.find? id = some c

/-- The links along which steps are collected. -/
inductive Follows (ws : Workspace) : Block → Block → Prop where
  /-- A chain is followed to its end. -/
  | next {b c : Block} (hnext : ws.ComesNext b c) : Follows ws b c
  /-- The body of a loop is followed if it has turns. -/
  | body {b c : Block} {l : Loop} {count : Option Float} (hkind : b.kind = .ok (.loop l))
      (hbody : ws.HeadsBody b c) (hcount : ws.loopCount b l = .ok count)
      (hturns : turns count ≠ 0) : Follows ws b c

/-- Followed links lead from a top block to the block. -/
def Visited (ws : Workspace) (b : Block) : Prop :=
  ∃ top ∈ ws.topIds, ∃ head, ws.find? top = some head ∧ Relation.ReflTransGen ws.Follows head b

variable {ws : Workspace} {b c : Block} {slot : String}

theorem Attached.refersTo (h : ws.Attached b slot c) : ws.RefersTo b c := by
  obtain ⟨id, hid, hc⟩ := h
  exact ⟨id, mem_references_of_value hid, hc⟩

theorem HeadsBody.refersTo (h : ws.HeadsBody b c) : ws.RefersTo b c := by
  obtain ⟨id, hid, hc⟩ := h
  exact ⟨id, mem_references_of_statement hid, hc⟩

theorem ComesNext.refersTo (h : ws.ComesNext b c) : ws.RefersTo b c := by
  obtain ⟨id, hid, hc⟩ := h
  exact ⟨id, mem_references_of_next hid, hc⟩

/-- A loop has one body. -/
theorem HeadsBody.unique {head : Block} (h : ws.HeadsBody b head) (hc : ws.HeadsBody b c) :
    c = head := by
  obtain ⟨id, hid, hhead⟩ := h
  obtain ⟨id', hid', hc⟩ := hc
  cases hid.symm.trans hid'
  exact Option.some.inj (hc.symm.trans hhead)

theorem rightUnique_comesNext (ws : Workspace) : Relator.RightUnique ws.ComesNext := by
  rintro b c d ⟨id, hid, hc⟩ ⟨id', hid', hd⟩
  cases hid.symm.trans hid'
  exact Option.some.inj (hc.symm.trans hd)

theorem Follows.refersTo (h : ws.Follows b c) : ws.RefersTo b c := by
  cases h with
  | next hnext => exact hnext.refersTo
  | body _ hbody => exact hbody.refersTo

/-- A block is found under one id. -/
theorem id_unique {id other : BlockId} (h : ws.find? id = some c)
    (hother : ws.find? other = some c) : other = id :=
  (id_of_find? hother).symm.trans (id_of_find? h)

theorem Visited.follows (h : ws.Visited b) (hbc : ws.Follows b c) : ws.Visited c := by
  obtain ⟨top, htop, head, hhead, hreaches⟩ := h
  exact ⟨top, htop, head, hhead, hreaches.tail hbc⟩

theorem Visited.mem (h : ws.Visited b) : b ∈ ws.blocks := by
  obtain ⟨top, -, head, hhead, hreaches⟩ := h
  rcases hreaches.cases_tail with rfl | ⟨a, -, hab⟩
  · exact mem_of_find? hhead
  · exact hab.refersTo.mem

/-- A reference is one of the three kinds of links, and only loops have bodies. -/
theorem Lists.link_cases {forest : List Tree} (h : ws.Lists forest) (hb : b ∈ ws.blocks)
    (hbc : ws.RefersTo b c) :
    (∃ slot, ws.Attached b slot c) ∨ (∃ l, b.kind = .ok (.loop l) ∧ ws.HeadsBody b c) ∨
      ws.ComesNext b c := by
  obtain ⟨id, hid, hc⟩ := hbc
  rcases Block.mem_references_iff.mp hid with ⟨slot, hid⟩ | ⟨slot, hid⟩ | hid
  · exact .inl ⟨slot, id, hid, hc⟩
  · obtain ⟨rfl, l, hkind⟩ := h.loop_of_statement hb hid
    exact .inr (.inl ⟨l, hkind, id, hid, hc⟩)
  · exact .inr (.inr ⟨id, hid, hc⟩)

/-! ## What chains hold along followed links -/

/-- What followed links lead to is held by the chain, inside loops that have turns. -/
theorem exists_chainHolds_of_follows (h : Relation.ReflTransGen ws.Follows b c) :
    ∃ trips, ws.ChainHolds b trips c ∧ 0 ∉ trips := by
  induction h with
  | refl => exact ⟨[], .first (.self b), List.not_mem_nil⟩
  | tail _ hcd ih =>
    obtain ⟨trips, hholds, htrips⟩ := ih
    cases hcd with
    | next hnext =>
      obtain ⟨id, hid, hc⟩ := hnext
      refine ⟨trips ++ [], hholds.trans (.later hid hc (.first (.self _))), ?_⟩
      simpa using htrips
    | body hkind hbody hcount hturns =>
      obtain ⟨id, hid, hc⟩ := hbody
      refine ⟨trips ++ [_],
        hholds.trans (.first (.body hkind hid hc hcount (.first (.self _)))), ?_⟩
      simpa [htrips] using Ne.symm hturns

mutual

theorem follows_of_blockHolds {b c : Block} {trips : List Nat} :
    ws.BlockHolds b trips c → 0 ∉ trips → Relation.ReflTransGen ws.Follows b c
  | .self _, _ => .refl
  | .body hkind hbody hhead hcount hholds, htrips => by
    rw [List.mem_cons, not_or] at htrips
    have hturns := Ne.symm htrips.1
    exact .head (.body hkind ⟨_, hbody, hhead⟩ hcount hturns)
      (follows_of_chainHolds hholds htrips.2)

/-- What a chain holds inside loops that have turns is reached along followed links. -/
theorem follows_of_chainHolds {b c : Block} {trips : List Nat} :
    ws.ChainHolds b trips c → 0 ∉ trips → Relation.ReflTransGen ws.Follows b c
  | .first hholds, htrips => follows_of_blockHolds hholds htrips
  | .later hnext hfound hholds, htrips =>
    .head (.next ⟨_, hnext, hfound⟩) (follows_of_chainHolds hholds htrips)

end

/-- The action blocks that are visited are those that steps come from. -/
theorem Lists.exists_step_iff_visited {forest : List Tree} (h : ws.Lists forest)
    {hooks : HookTable} {chains : List (List Step)}
    (hchains : List.Forall₂ (ws.HeadMeans hooks) ws.topIds chains) {a : Action}
    (hb : b ∈ ws.blocks) (hkind : b.kind = .ok (.action a)) :
    (∃ s ∈ chains.flatten, s.id = b.id) ↔ ws.Visited b := by
  constructor
  · rintro ⟨s, hs, hid⟩
    obtain ⟨top, htop, head, trips, c, hhead, hholds, hmakes, hpath⟩ :=
      exists_source_of_program hchains s hs
    obtain rfl : c = b := block_unique (hholds.mem (mem_of_find? hhead)) hb
      (hmakes.id_eq.symm.trans hid)
    -- A path chooses a turn of each loop, so none of the loops is without turns.
    have htrips : 0 ∉ trips := by
      intro hzero
      obtain ⟨i, -, hi⟩ := exists_of_forall₂ (mem_paths.mp hpath) hzero
      exact absurd hi (Nat.not_lt_zero i)
    exact ⟨top, htop, head, hhead, follows_of_chainHolds hholds htrips⟩
  · rintro ⟨top, htop, head, hhead, hreaches⟩
    obtain ⟨trips, hholds, htrips⟩ := exists_chainHolds_of_follows hreaches
    have hpaths := h.iterations_of_program hchains htop hhead hholds hkind
    have hlength : (copiesOf b.id chains.flatten).length ≠ 0 := by
      rw [← List.length_map, show List.map Step.iteration _ = _ from hpaths, length_paths]
      exact List.prod_ne_zero htrips
    obtain ⟨s, hs⟩ := List.exists_mem_of_length_pos (Nat.pos_of_ne_zero hlength)
    obtain ⟨hs, hid⟩ := List.mem_filter.mp hs
    exact ⟨s, hs, by simpa using hid⟩

/-! ## What is followed is compiled -/

variable {opts : Options}

/-- Somewhere in the compilation a chain is walked along from the block, with success. -/
def Walked (ws : Workspace) (opts : Options) (b : Block) : Prop :=
  ∃ nest bound done steps, ws.walkOutcome opts.maxSteps
    (ws.contributionOutcome opts (ws.chainOutcome opts nest)) bound done b = .ok steps

theorem walked_of_chainOutcome {nest : Nat} {steps : List Step}
    (h : ws.chainOutcome opts nest b = .ok steps) : ws.Walked opts b := by
  cases nest with
  | zero => cases h
  | succ nest => exact ⟨nest, _, 0, steps, h⟩

theorem Walked.exists_contribution (h : ws.Walked opts b) :
    ∃ nest steps, ws.contributionOutcome opts (ws.chainOutcome opts nest) b = .ok steps := by
  obtain ⟨nest, bound, done, steps, h⟩ := h
  cases bound with
  | zero => cases h
  | succ bound =>
    obtain ⟨more, hmore, -⟩ := walkOutcome_succ_eq_ok h
    exact ⟨nest, more, hmore⟩

theorem Walked.kind (h : ws.Walked opts b) : ∃ k, b.kind = .ok k := by
  obtain ⟨nest, steps, h⟩ := h.exists_contribution
  obtain ⟨k, hk, -⟩ := bind_eq_ok_iff.mp h
  exact ⟨k, checked_eq_ok_iff.mp hk⟩

/-- What comes next is there, and the walk goes on from it. -/
theorem Walked.exists_next (h : ws.Walked opts b) {id : BlockId} (hid : b.next = some id) :
    ∃ c, ws.find? id = some c ∧ ws.Walked opts c := by
  obtain ⟨nest, bound, done, steps, h⟩ := h
  cases bound with
  | zero => cases h
  | succ bound =>
    obtain ⟨more, -, -, ⟨hnone, -⟩ | ⟨id', next, rest, hid', hnext, hrest, -⟩⟩ :=
      walkOutcome_succ_eq_ok h
    · cases hnone.symm.trans hid
    · cases hid'.symm.trans hid
      exact ⟨next, hnext, nest, bound, _, rest, hrest⟩

theorem Walked.next (h : ws.Walked opts b) (hnext : ws.ComesNext b c) : ws.Walked opts c := by
  obtain ⟨id, hid, hc⟩ := hnext
  obtain ⟨d, hd, hwalked⟩ := h.exists_next hid
  cases hc.symm.trans hd
  exact hwalked

/-- The body of a loop is there, and it is checked or a walk leads along it. -/
theorem Walked.exists_body (h : ws.Walked opts b) {l : Loop} (hkind : b.kind = .ok (.loop l))
    {id : BlockId} (hid : b.statements.get? Kind.bodySlot = some id) :
    ∃ c count, ws.find? id = some c ∧ ws.loopCount b l = .ok count ∧
      ((turns count = 0 ∧ ws.validate c = .ok ()) ∨ (turns count ≠ 0 ∧ ws.Walked opts c)) := by
  obtain ⟨nest, steps, h⟩ := h.exists_contribution
  obtain ⟨e, hk, -⟩ | ⟨a, s, hk, -⟩ | ⟨l', count, hk, hcount, h⟩ := contributionOutcome_eq_ok h
  · cases kind_unique hkind hk
  · cases kind_unique hkind hk
  · cases kind_unique hkind hk
    obtain ⟨hnone, -⟩ | ⟨id', c, hid', hc, ⟨hturns, hcheck, -⟩ | ⟨hturns, body, hchain, -⟩⟩ :=
      unrollOutcome_eq_ok (finiteCount_of_loopCount hcount) h
    · cases hnone.symm.trans hid
    · cases hid'.symm.trans hid
      exact ⟨c, count, hc, hcount, .inl ⟨hturns, hcheck⟩⟩
    · cases hid'.symm.trans hid
      exact ⟨c, count, hc, hcount, .inr ⟨hturns, walked_of_chainOutcome hchain⟩⟩

theorem Walked.body (h : ws.Walked opts b) {l : Loop} {count : Option Float}
    (hkind : b.kind = .ok (.loop l)) (hbody : ws.HeadsBody b c)
    (hcount : ws.loopCount b l = .ok count) (hturns : turns count ≠ 0) : ws.Walked opts c := by
  obtain ⟨id, hid, hc⟩ := hbody
  obtain ⟨d, count', hd, hcount', ⟨hidle, -⟩ | ⟨-, hwalked⟩⟩ := h.exists_body hkind hid
  · cases hcount.symm.trans hcount'
    exact absurd hidle hturns
  · cases hc.symm.trans hd
    exact hwalked

theorem Walked.follows (h : ws.Walked opts b) (hbc : ws.Follows b c) : ws.Walked opts c := by
  cases hbc with
  | next hnext => exact h.next hnext
  | body hkind hbody hcount hturns => exact h.body hkind hbody hcount hturns

theorem walked_head {heads : List BlockId} {done : Nat} {steps : List Step}
    (h : ws.chainsOutcome opts done heads = .ok steps) {top : BlockId} (htop : top ∈ heads)
    (hfound : ws.find? top = some b) : ws.Walked opts b := by
  induction heads generalizing done steps with
  | nil => exact absurd htop List.not_mem_nil
  | cons id rest ih =>
    obtain ⟨head, chain, more, hhead, hchain, -, hmore, -⟩ := chainsOutcome_cons_eq_ok h
    rcases List.mem_cons.mp htop with rfl | htop
    · obtain rfl := Option.some.inj (hhead.symm.trans hfound)
      exact walked_of_chainOutcome hchain
    · exact ih hmore htop

/-- The compiler comes to every block that is visited. -/
theorem Visited.walked {steps : List Step}
    (hsteps : ws.chainsOutcome opts 0 ws.topIds = .ok steps) (h : ws.Visited b) :
    ws.Walked opts b := by
  obtain ⟨top, htop, head, hfound, hreaches⟩ := h
  -- Along the way from the top block: each followed link leads from one walk into another.
  induction hreaches with
  | refl => exact walked_head hsteps htop hfound
  | tail _ hbc ih => exact ih.follows hbc

/-! ## A block of a forest is reached in one way -/

section Forest

variable {forest : List Tree}

/-- What is attached to a value slot does not come next, and it heads no body. -/
theorem Lists.not_linked_of_attached (h : ws.Lists forest) (hb : b ∈ ws.blocks)
    (hattached : ws.Attached b slot c) : ¬ (ws.ComesNext b c ∨ ws.HeadsBody b c) := by
  obtain ⟨id, hid, hc⟩ := hattached
  obtain ⟨hstatement, hnext⟩ := Block.not_statement_of_value (h.nodup_references hb) hid
  rintro (⟨other, hother, hfound⟩ | ⟨other, hother, hfound⟩)
  · exact hnext (id_unique hc hfound ▸ hother)
  · exact hstatement _ (id_unique hc hfound ▸ hother)

/-- What is attached to a value slot is not followed. -/
theorem Lists.not_follows_of_attached (h : ws.Lists forest) (hb : b ∈ ws.blocks)
    (hattached : ws.Attached b slot c) : ¬ ws.Follows b c := by
  intro hfollows
  cases hfollows with
  | next hlink => exact h.not_linked_of_attached hb hattached (.inl hlink)
  | body _ hlink => exact h.not_linked_of_attached hb hattached (.inr hlink)

/-- A body without turns is not followed. -/
theorem Lists.not_follows_of_idle (h : ws.Lists forest) (hb : b ∈ ws.blocks) {l : Loop}
    {count : Option Float} (hkind : b.kind = .ok (.loop l)) (hcount : ws.loopCount b l = .ok count)
    (hturns : turns count = 0) (hbody : ws.HeadsBody b c) : ¬ ws.Follows b c := by
  intro hfollows
  cases hfollows with
  | next hlink =>
    obtain ⟨id, hid, hc⟩ := hbody
    obtain ⟨other, hother, hfound⟩ := hlink
    exact Block.not_next_of_statement (h.nodup_references hb) hid (id_unique hc hfound ▸ hother)
  | body hkind' _ hcount' hturns' =>
    cases kind_unique hkind hkind'
    cases hcount.symm.trans hcount'
    exact hturns' hturns

/-- A top block is the target of no reference of a block of the workspace. -/
theorem not_refersTo_top {top : BlockId} (htop : top ∈ ws.topIds) (hfound : ws.find? top = some c)
    (hb : b ∈ ws.blocks) : ¬ ws.RefersTo b c := by
  rintro ⟨id, hid, hc⟩
  obtain rfl := id_unique hfound hc
  exact (mem_topIds.mp htop).2 (mem_referenced hb hid)

theorem Lists.parent_unique_of_refersTo (h : ws.Lists forest) {a : Block} (ha : a ∈ ws.blocks)
    (hb : b ∈ ws.blocks) (hac : ws.RefersTo a c) (hbc : ws.RefersTo b c) : a = b := by
  obtain ⟨id, hid, hc⟩ := hac
  obtain ⟨other, hother, hother'⟩ := hbc
  obtain rfl := id_unique hc hother'
  exact h.parent_unique ha hb hid hother

/-- A reference to a visited block is a followed link from a visited block. -/
theorem Lists.visited_of_refersTo (h : ws.Lists forest) (hb : b ∈ ws.blocks)
    (hbc : ws.RefersTo b c) (hc : ws.Visited c) : ws.Visited b ∧ ws.Follows b c := by
  obtain ⟨top, htop, head, hhead, hreaches⟩ := hc
  rcases hreaches.cases_tail with rfl | ⟨a, ha, hac⟩
  · exact absurd hbc (not_refersTo_top htop hhead hb)
  · have hvisited : ws.Visited a := ⟨top, htop, head, hhead, ha⟩
    obtain rfl := h.parent_unique_of_refersTo hb hvisited.mem hbc hac.refersTo
    exact ⟨hvisited, hac⟩

/-- What leads to a visited block is visited. -/
theorem Lists.visited_of_reaches (h : ws.Lists forest) (hb : b ∈ ws.blocks)
    (hbc : Relation.ReflTransGen ws.RefersTo b c) (hc : ws.Visited c) : ws.Visited b := by
  induction hbc using Relation.ReflTransGen.head_induction_on with
  | refl => exact hc
  | head hbm _ ih => exact (h.visited_of_refersTo hb hbm (ih hbm.mem)).1

end Forest

end BlockSteps.Workspace

import Mathlib
import BlockSteps.Proofs.Compile.Passed
import BlockSteps.Proofs.Decimal.PlainText

/-!
# The report of a compilation

The report is there for people who look for a mistake in their program.  It has to be short however
large the document is, and complete: a loop of a million turns is reported once, and a value that
does nothing where it stands is never left out.

**Main statement.**  `reported_of_ofText`: for a loaded workspace whose compilation succeeds, the
report is a first event, one event for each chain that is compiled, for each loop on these chains
and for each value on them, and a last event; and a compilation that fails does not report the last
one.  `Reported` says what there is of each and in which order, `Event.LoggedAs` under which level,
with which message and with which fields it stands in a log.

The events between the first and the last are those of a pass (`exists_programPass`).  That there is
an event for everything is read off its rules.  That there is only one takes two things.  Events are
told apart by their **topic**, and topics are named by blocks that are passed
(`ProgramPass.concerns`); and in a loaded workspace no block is passed twice, so no topic occurs
twice (`ProgramPass.nodup_topics`).
-/

namespace BlockSteps

/-! ## Topics -/

/-- What an event is about. -/
inductive Topic where
  /-- The chain that begins with a block. -/
  | chain (head : BlockId)
  /-- A loop. -/
  | loop (block : BlockId)
  /-- A block that has a value. -/
  | value (block : BlockId)
  /-- The program as a whole. -/
  | program
  deriving DecidableEq

/-- The block that a topic is named by. -/
def Topic.block? : Topic → Option BlockId
  | .chain head => some head
  | .loop block => some block
  | .value block => some block
  | .program => none

/-- The topic is named by one of the blocks. -/
def Topic.Names (t : Topic) (passed : List Block) : Prop := ∃ y ∈ passed, t.block? = some y.id

/-- What the event is about. -/
def Event.topic : Event → Topic
  | .loadingWorkspace _ => .program
  | .loadedWorkspace _ => .program
  | .compilingWorkspace _ _ => .program
  | .compiledWorkspace _ => .program
  | .compiledChain head _ => .chain head
  | .strayValue block _ => .value block
  | .loopWithoutBody block => .loop block
  | .loopNotRun block => .loop block
  | .loopBodyEmpty block _ => .loop block
  | .loopUnrolled block _ _ _ => .loop block

/-- Whether a block has a value. -/
def Block.hasValue (b : Block) : Bool :=
  match b.kind with
  | .ok (.expression _) => true
  | _ => false

/-! ## Lines of a log -/

/-- What a log has of an event. -/
structure LogLine where
  /-- How important it is. -/
  level : Level
  /-- What happened. -/
  message : String
  /-- To what it happened, by name. -/
  fields : List (String × String)
  deriving DecidableEq

/-- The line of an event. -/
def Event.line (e : Event) : LogLine := ⟨e.level, e.message, e.fields⟩

/-- The lines of the events that a compilation can report.  Of a number of turns that is no whole
number of the machine only this is said, that its text reads as it. -/
inductive Event.LoggedAs : Event → LogLine → Prop where
  /-- The first line of a compilation. -/
  | compilingWorkspace (blocks chains : Nat) :
      LoggedAs (.compilingWorkspace blocks chains) ⟨.info, "Compiling workspace",
        [("blocks", toString blocks), ("chains", toString chains)]⟩
  /-- The last line of a compilation. -/
  | compiledWorkspace (steps : Nat) :
      LoggedAs (.compiledWorkspace steps)
        ⟨.info, "Compiled workspace", [("steps", toString steps)]⟩
  /-- The line of a chain. -/
  | compiledChain (head : BlockId) (steps : Nat) :
      LoggedAs (.compiledChain head steps)
        ⟨.debug, "Compiled chain", [("head", head), ("steps", toString steps)]⟩
  /-- The line of a value out of place. -/
  | strayValue (block : BlockId) (type : String) :
      LoggedAs (.strayValue block type)
        ⟨.warn, "Value block in statement position contributes no steps",
          [("block_id", block), ("block_type", type)]⟩
  /-- The line of a loop without a body. -/
  | loopWithoutBody (block : BlockId) :
      LoggedAs (.loopWithoutBody block)
        ⟨.debug, "Repeat block has no body", [("block_id", block)]⟩
  /-- The line of a loop without turns. -/
  | loopNotRun (block : BlockId) :
      LoggedAs (.loopNotRun block)
        ⟨.debug, "Repeat block runs zero times", [("block_id", block)]⟩
  /-- The line of a loop whose body has no steps. -/
  | loopBodyEmpty (block : BlockId) (trips : Float) (text : String)
      (htext : trips.isFinite = true →
        Decimal.number? (Text.trimmed text.toList) = some trips) :
      LoggedAs (.loopBodyEmpty block trips)
        ⟨.debug, "Repeat body is empty", [("block_id", block), ("trips", text)]⟩
  /-- The line of a loop that is unrolled. -/
  | loopUnrolled (block : BlockId) (trips bodySteps steps : Nat) :
      LoggedAs (.loopUnrolled block trips bodySteps steps)
        ⟨.debug, "Unrolled repeat block", [("block_id", block), ("trips", toString trips),
          ("body_steps", toString bodySteps), ("steps", toString steps)]⟩

/-! ## What is reported in any case -/

namespace Traced

variable {ε α β : Type} {p : Event → Prop}

/-- Everything that is reported has the property, however the computation comes out. -/
def Reports (p : Event → Prop) (x : Traced ε α) : Prop := ∀ e ∈ x.events, p e

theorem reports_pure (a : α) : (pure a : Traced ε α).Reports p := nofun

theorem reports_lift (x : Except ε α) : (liftM x : Traced ε α).Reports p := nofun

theorem reports_throw (e : ε) : (throw e : Traced ε α).Reports p := nofun

theorem reports_report {e : Event} (he : p e) : (report e : Traced ε Unit).Reports p :=
  List.forall_mem_singleton.mpr he

theorem Reports.bind {x : Traced ε α} {f : α → Traced ε β} (hx : x.Reports p)
    (hf : ∀ a, (f a).Reports p) : (x >>= f).Reports p := by
  intro e he
  cases h : x.outcome with
  | error _ =>
    rw [events_bind_error h] at he
    exact hx e he
  | ok a =>
    rw [events_bind_ok h] at he
    exact (List.mem_append.mp he).elim (hx e) (hf a e)

theorem reports_event {e : Event} (he : p e) (a : α) :
    (report e >>= fun _ => (pure a : Traced ε α)).Reports p :=
  (reports_report he).bind fun _ => reports_pure a

end Traced

namespace Workspace

variable {ws : Workspace} {hooks : HookTable} {opts : Options} {b c x : Block}
  {rest passed passed' later later' : List Block} {log : List Event} {t : Topic}

/-! ## Values out of place -/

/-- The warnings of a report. -/
def warnings (log : List Event) : List Event := log.filter fun e => e.level = .warn

/-- A warning for each of the blocks that has a value, in their order. -/
def strayValues (passed : List Block) : List Event :=
  (passed.filter Block.hasValue).map fun b => .strayValue b.id b.type

theorem warnings_append (log log' : List Event) :
    warnings (log ++ log') = warnings log ++ warnings log' := List.filter_append ..

theorem strayValues_append (xs ys : List Block) :
    strayValues (xs ++ ys) = strayValues xs ++ strayValues ys := by
  simp [strayValues]

theorem level_ranEvent (block : BlockId) (count : Option Float) (steps : Nat) :
    (ranEvent block count steps).level = .debug := by
  unfold ranEvent
  split <;> rfl

theorem strayValues_of_loop {l : Loop} (hkind : b.kind = .ok (.loop l)) (xs : List Block) :
    strayValues (b :: xs) = strayValues xs := by
  simp [strayValues, Block.hasValue, hkind]

mutual

theorem BlockPass.warnings_eq {b : Block} {rest : List Block} {log : List Event} :
    ws.BlockPass hooks b rest log → warnings log = strayValues (b :: rest)
  | .action hkind => by simp [warnings, strayValues, Block.hasValue, hkind]
  | .value hkind => by simp [warnings, strayValues, Block.hasValue, hkind, Event.level]
  | .noBody hkind _ => by rw [strayValues_of_loop hkind]; rfl
  | .notRun hkind _ _ _ => by rw [strayValues_of_loop hkind]; rfl
  | .run hkind _ _ _ _ hwalk => by
    have hnone : ∀ head steps block count bodySteps,
        warnings [.compiledChain head steps, ranEvent block count bodySteps] = [] := by
      intro head steps block count bodySteps
      simp [warnings, level_ranEvent, show (Event.compiledChain head steps).level = .debug from rfl]
    rw [strayValues_of_loop hkind, warnings_append, hwalk.warnings_eq, hnone, List.append_nil]

theorem WalkPass.warnings_eq {b : Block} {rest : List Block} {log : List Event} :
    ws.WalkPass hooks b rest log → warnings log = strayValues (b :: rest)
  | .last hblock _ => hblock.warnings_eq
  | .link hblock _ hrest => by
    rw [warnings_append, hblock.warnings_eq, hrest.warnings_eq, ← List.cons_append,
      strayValues_append]

end

theorem ProgramPass.warnings_eq {ids : List BlockId} (h : ws.ProgramPass hooks ids passed log) :
    warnings log = strayValues passed := by
  induction h with
  | nil => rfl
  | cons _ _ hwalk _ ih =>
    rw [warnings_append, hwalk.warnings_eq, strayValues_append, ← ih]
    rfl

/-! ## What a report is about -/

theorem topic_ranEvent (block : BlockId) (count : Option Float) (steps : Nat) :
    (ranEvent block count steps).topic = .loop block := by
  unfold ranEvent
  split <;> rfl

/-- What can be reported of some blocks: a loop or a value among them, or the body of a loop among
them, which comes later. -/
inductive Concerns (ws : Workspace) (passed later : List Block) : Topic → Prop where
  /-- One of the blocks is a loop. -/
  | loop {b : Block} {l : Loop} (hb : b ∈ passed) (hkind : b.kind = .ok (.loop l)) :
      Concerns ws passed later (.loop b.id)
  /-- One of the blocks has a value. -/
  | value {b : Block} {e : Expression} (hb : b ∈ passed) (hkind : b.kind = .ok (.expression e)) :
      Concerns ws passed later (.value b.id)
  /-- The body of one of the blocks is compiled. -/
  | body {b c : Block} (hb : b ∈ passed) (hc : c ∈ later) (hruns : ws.Runs b c) :
      Concerns ws passed later (.chain c.id)

theorem Concerns.mono (h : ws.Concerns passed later t) (hpassed : passed ⊆ passed')
    (hlater : later ⊆ later') : ws.Concerns passed' later' t := by
  cases h with
  | loop hb hkind => exact .loop (hpassed hb) hkind
  | value hb hkind => exact .value (hpassed hb) hkind
  | body hb hc hruns => exact .body (hpassed hb) (hlater hc) hruns

theorem Concerns.names (h : ws.Concerns passed later t) (hlater : later ⊆ passed) :
    t.Names passed := by
  cases h with
  | loop hb => exact ⟨_, hb, rfl⟩
  | value hb => exact ⟨_, hb, rfl⟩
  | body _ hc => exact ⟨_, hlater hc, rfl⟩

mutual

theorem BlockPass.concerns {b : Block} {rest : List Block} {log : List Event} :
    ws.BlockPass hooks b rest log → ∀ e ∈ log, ws.Concerns (b :: rest) rest e.topic
  | .action _, e, he => absurd he List.not_mem_nil
  | .value hkind, e, he => by
    cases List.mem_singleton.mp he
    exact .value List.mem_cons_self hkind
  | .noBody hkind _, e, he | .notRun hkind _ _ _, e, he => by
    cases List.mem_singleton.mp he
    exact .loop List.mem_cons_self hkind
  | .run hkind hbody hcount hturns _ hwalk, e, he => by
    rcases List.mem_append.mp he with he | he
    · exact (hwalk.concerns e he).mono (List.subset_cons_self ..) (List.subset_cons_self ..)
    · rcases List.mem_pair.mp he with rfl | rfl
      · exact .body List.mem_cons_self List.mem_cons_self ⟨_, _, hkind, hbody, hcount, hturns⟩
      · rw [topic_ranEvent]
        exact .loop List.mem_cons_self hkind

theorem WalkPass.concerns {b : Block} {rest : List Block} {log : List Event} :
    ws.WalkPass hooks b rest log → ∀ e ∈ log, ws.Concerns (b :: rest) rest e.topic
  | .last hblock _ => hblock.concerns
  | .link hblock _ hrest => by
    intro e he
    rcases List.mem_append.mp he with he | he
    · refine (hblock.concerns e he).mono ?_ (List.subset_append_left ..)
      exact List.cons_subset_cons _ (List.subset_append_left ..)
    · refine (hrest.concerns e he).mono ?_ ?_
      · exact List.subset_cons_of_subset _ (List.subset_append_right ..)
      · exact List.subset_append_of_subset_right _ (List.subset_cons_self ..)

end

theorem BlockPass.names (h : ws.BlockPass hooks b rest log) :
    ∀ e ∈ log, e.topic.Names (b :: rest) :=
  fun e he => (h.concerns e he).names (List.subset_cons_self ..)

theorem WalkPass.names (h : ws.WalkPass hooks b rest log) :
    ∀ e ∈ log, e.topic.Names (b :: rest) :=
  fun e he => (h.concerns e he).names (List.subset_cons_self ..)

/-! ## Nothing is reported twice -/

/-- Reports on blocks that share no id share no topic. -/
theorem nodup_topics_append {log log' : List Event}
    (hids : ((passed ++ passed').map Block.id).Nodup) (h : ∀ e ∈ log, e.topic.Names passed)
    (h' : ∀ e ∈ log', e.topic.Names passed') (hlog : (log.map Event.topic).Nodup)
    (hlog' : (log'.map Event.topic).Nodup) : ((log ++ log').map Event.topic).Nodup := by
  rw [List.map_append, List.nodup_append] at hids ⊢
  refine ⟨hlog, hlog', fun t ht t' ht' heq => ?_⟩
  obtain ⟨e, he, rfl⟩ := List.mem_map.mp ht
  obtain ⟨e', he', rfl⟩ := List.mem_map.mp ht'
  obtain ⟨y, hy, hblock⟩ := h e he
  obtain ⟨y', hy', hblock'⟩ := h' e' he'
  rw [heq, hblock'] at hblock
  refine hids.2.2 y.id (List.mem_map_of_mem hy) y'.id (List.mem_map_of_mem hy') ?_
  exact (Option.some.inj hblock).symm

/-- The walk along a chain does not report the chain. -/
theorem WalkPass.chain_not_mem (h : ws.WalkPass hooks b rest log)
    (hids : ((b :: rest).map Block.id).Nodup) : .chain b.id ∉ log.map Event.topic := by
  intro hmem
  obtain ⟨e, he, htopic⟩ := List.mem_map.mp hmem
  have hconcerns := h.concerns e he
  generalize e.topic = t at hconcerns htopic
  cases hconcerns with
  | loop | value => cases htopic
  | body _ hc _ =>
    rw [List.map_cons, List.nodup_cons] at hids
    exact hids.1 (Topic.chain.inj htopic ▸ List.mem_map_of_mem hc)

theorem WalkPass.names_chain (h : ws.WalkPass hooks b rest log) (steps : Nat) :
    ∀ e ∈ log ++ [Event.compiledChain b.id steps], e.topic.Names (b :: rest) := by
  intro e he
  rcases List.mem_append.mp he with he | he
  · exact h.names e he
  · cases List.mem_singleton.mp he
    exact ⟨b, List.mem_cons_self, rfl⟩

theorem WalkPass.nodup_topics_chain (h : ws.WalkPass hooks b rest log)
    (hids : ((b :: rest).map Block.id).Nodup) (hlog : (log.map Event.topic).Nodup) (steps : Nat) :
    ((log ++ [Event.compiledChain b.id steps]).map Event.topic).Nodup := by
  rw [List.map_append, List.map_singleton, ← List.concat_eq_append]
  exact hlog.concat (h.chain_not_mem hids)

mutual

theorem BlockPass.nodup_topics {b : Block} {rest : List Block} {log : List Event} :
    ws.BlockPass hooks b rest log → ((b :: rest).map Block.id).Nodup →
      (log.map Event.topic).Nodup
  | .action _, _ => List.nodup_nil
  | .value _, _ | .noBody _ _, _ | .notRun _ _ _ _, _ => List.nodup_singleton _
  | .run _ _ _ _ _ hwalk, hids => by
    have hbody := (List.nodup_cons.mp hids).2
    have hchain := hwalk.nodup_topics_chain hbody (hwalk.nodup_topics hbody)
    have hloop : ((_ ++ [b]).map Block.id).Nodup :=
      ((List.perm_append_singleton b _).map Block.id).nodup_iff.mpr hids
    rw [List.append_cons]
    refine nodup_topics_append hloop (hwalk.names_chain _) ?_ (hchain _) (List.nodup_singleton _)
    intro e he
    rw [List.mem_singleton.mp he, topic_ranEvent]
    exact ⟨b, List.mem_singleton_self b, rfl⟩

theorem WalkPass.nodup_topics {b : Block} {rest : List Block} {log : List Event} :
    ws.WalkPass hooks b rest log → ((b :: rest).map Block.id).Nodup →
      (log.map Event.topic).Nodup
  | .last hblock _, hids => hblock.nodup_topics hids
  | .link hblock _ hrest, hids => by
    rw [← List.cons_append] at hids
    obtain ⟨hfirst, hothers, -⟩ := List.nodup_append.mp (List.map_append ▸ hids)
    exact nodup_topics_append hids hblock.names hrest.names (hblock.nodup_topics hfirst)
      (hrest.nodup_topics hothers)

end

/-- In a program the chains of the heads are reported besides. -/
theorem ProgramPass.concerns {ids : List BlockId} (h : ws.ProgramPass hooks ids passed log) :
    ∀ e ∈ log, ws.Concerns passed passed e.topic ∨
      ∃ id ∈ ids, ∃ head, ws.find? id = some head ∧ e.topic = .chain head.id := by
  induction h with
  | nil => exact nofun
  | cons hfound _ hwalk _ ih =>
    intro e he
    rcases List.mem_append.mp he with he | he
    · refine .inl ((hwalk.concerns e he).mono (List.subset_append_left ..) ?_)
      exact List.subset_append_of_subset_left _ (List.subset_cons_self ..)
    · rcases List.mem_cons.mp he with rfl | he
      · exact .inr ⟨_, List.mem_cons_self, _, hfound, rfl⟩
      · rcases ih e he with hconcerns | ⟨id, hid, hhead⟩
        · exact .inl (hconcerns.mono (List.subset_append_right ..) (List.subset_append_right ..))
        · exact .inr ⟨id, List.mem_cons_of_mem _ hid, hhead⟩

theorem ProgramPass.names {ids : List BlockId} (h : ws.ProgramPass hooks ids passed log) :
    ∀ e ∈ log, e.topic.Names passed := by
  intro e he
  rcases h.concerns e he with hconcerns | ⟨id, hid, head, hfound, htopic⟩
  · exact hconcerns.names (List.Subset.refl _)
  · rw [htopic]
    exact ⟨head, h.mem_iff.mpr ⟨id, hid, head, hfound, .refl⟩, rfl⟩

theorem ProgramPass.nodup_topics {ids : List BlockId} (h : ws.ProgramPass hooks ids passed log)
    (hids : (passed.map Block.id).Nodup) : (log.map Event.topic).Nodup := by
  induction h with
  | nil => exact List.nodup_nil
  | cons _ _ hwalk hothers ih =>
    obtain ⟨hfirst, hrest, -⟩ := List.nodup_append.mp (List.map_append ▸ hids)
    rw [List.append_cons]
    exact nodup_topics_append hids (hwalk.names_chain _) hothers.names
      (hwalk.nodup_topics_chain hfirst (hwalk.nodup_topics hfirst) _) (ih hrest)

/-! ## The report on one block -/

/-- What is reported of a loop. -/
inductive LoopReport (ws : Workspace) (hooks : HookTable) (b : Block) : Event → Prop where
  /-- It has no body. -/
  | noBody (hbody : b.statements.get? Kind.bodySlot = none) :
      LoopReport ws hooks b (.loopWithoutBody b.id)
  /-- It has no turns. -/
  | notRun {c : Block} {l : Loop} {count : Option Float} (hkind : b.kind = .ok (.loop l))
      (hbody : ws.HeadsBody b c) (hcount : ws.loopCount b l = .ok count)
      (hturns : turns count = 0) : LoopReport ws hooks b (.loopNotRun b.id)
  /-- It has turns, and its body means no steps. -/
  | empty {c : Block} {l : Loop} {count : Option Float} (hkind : b.kind = .ok (.loop l))
      (hbody : ws.HeadsBody b c) (hcount : ws.loopCount b l = .ok count)
      (hturns : turns count ≠ 0) (hmeans : ws.ChainMeans hooks c []) :
      LoopReport ws hooks b (.loopBodyEmpty b.id (tripCount count))
  /-- It has turns, and copies of the steps of its body are made. -/
  | unrolled {c : Block} {l : Loop} {count : Option Float} {steps : List Step}
      (hkind : b.kind = .ok (.loop l)) (hbody : ws.HeadsBody b c)
      (hcount : ws.loopCount b l = .ok count) (hturns : turns count ≠ 0)
      (hmeans : ws.ChainMeans hooks c steps) (hsteps : steps ≠ []) :
      LoopReport ws hooks b
        (.loopUnrolled b.id (turns count) steps.length (turns count * steps.length))

theorem loopReport_ranEvent {l : Loop} {count : Option Float} {steps : List Step}
    (hkind : b.kind = .ok (.loop l)) (hbody : ws.HeadsBody b c)
    (hcount : ws.loopCount b l = .ok count) (hturns : turns count ≠ 0)
    (hmeans : ws.ChainMeans hooks c steps) :
    ws.LoopReport hooks b (ranEvent b.id count steps.length) := by
  unfold ranEvent
  split
  · rename_i hempty
    obtain rfl := List.length_eq_zero_iff.mp hempty
    exact .empty hkind hbody hcount hturns hmeans
  · rename_i hsome
    exact .unrolled hkind hbody hcount hturns hmeans fun h => hsome (h ▸ rfl)

theorem LoopReport.topic_eq {e : Event} (h : ws.LoopReport hooks b e) : e.topic = .loop b.id := by
  cases h <;> rfl

/-- A loop is reported, and the body before it if it is compiled. -/
theorem BlockPass.loopReport (h : ws.BlockPass hooks b rest log) {l : Loop}
    (hkind : b.kind = .ok (.loop l)) : ∃ e ∈ log, ws.LoopReport hooks b e := by
  cases h with
  | action hkind' | value hkind' => cases kind_unique hkind hkind'
  | noBody _ hbody => exact ⟨_, List.mem_singleton_self _, .noBody hbody⟩
  | notRun hkind hbody hcount hturns =>
    exact ⟨_, List.mem_singleton_self _, .notRun hkind hbody hcount hturns⟩
  | run hkind hbody hcount hturns hmeans _ =>
    exact ⟨_, List.mem_append_right _ (List.mem_pair.mpr (.inr rfl)),
      loopReport_ranEvent hkind hbody hcount hturns hmeans⟩

theorem BlockPass.bodyReport (h : ws.BlockPass hooks b rest log) (hruns : ws.Runs b c) :
    ∃ rest body steps e, ws.WalkPass hooks c rest body ∧ ws.ChainMeans hooks c steps ∧
      ws.LoopReport hooks b e ∧ log = body ++ [.compiledChain c.id steps.length, e] := by
  obtain ⟨l, count, hkind, hbody, hcount, hturns⟩ := hruns
  cases h with
  | action hkind' | value hkind' => cases kind_unique hkind hkind'
  | noBody _ hnone =>
    obtain ⟨id, hid, -⟩ := hbody
    cases hnone.symm.trans hid
  | notRun hkind' _ hcount' hturns' =>
    cases kind_unique hkind hkind'
    cases hcount.symm.trans hcount'
    exact absurd hturns' hturns
  | run hkind' hbody' hcount' hturns' hmeans hwalk =>
    obtain rfl := hbody.unique hbody'
    exact ⟨_, _, _, _, hwalk, hmeans,
      loopReport_ranEvent hkind' hbody' hcount' hturns' hmeans, rfl⟩

/-! ## Programs -/

/-- The block is the first of a chain that is compiled: a top block, or the first of the body of a
visited loop that has turns. -/
def HeadsChain (ws : Workspace) (c : Block) : Prop :=
  (∃ id ∈ ws.topIds, ws.find? id = some c) ∨ ∃ b, ws.Visited b ∧ ws.Runs b c

/-- The report of a program that is compiled, but for its first and its last event, and the blocks
that are passed. -/
structure Reported (ws : Workspace) (hooks : HookTable) (passed : List Block)
    (log : List Event) : Prop where
  /-- No block is passed twice. -/
  nodup : passed.Nodup
  /-- The blocks that are passed are those that are visited. -/
  visited : ∀ b, b ∈ passed ↔ ws.Visited b
  /-- They are passed in the order of their chains. -/
  inOrder : ∀ b c, ws.Visited b → Relation.TransGen ws.ComesNext b c → [b, c].Sublist passed
  /-- Of each chain there is one event, with the number of the steps that the chain means. -/
  chain : ∀ c, ws.HeadsChain c → ∃ steps, ws.ChainMeans hooks c steps ∧
    log.filter (fun e => e.topic = .chain c.id) = [.compiledChain c.id steps.length]
  /-- Of each loop there is one event, which says how it was compiled. -/
  loop : ∀ b l, ws.Visited b → b.kind = .ok (.loop l) →
    ∃ e, ws.LoopReport hooks b e ∧ log.filter (fun e => e.topic = .loop b.id) = [e]
  /-- The event of a loop comes after all events of its body. -/
  afterBody : ∀ b c, ws.Visited b → ws.Runs b c → ∃ before rest body steps e after,
    ws.WalkPass hooks c rest body ∧ ws.LoopReport hooks b e ∧
      log = before ++ body ++ .compiledChain c.id steps :: e :: after
  /-- The warnings are one for each block that has a value, in the order of passing. -/
  values : warnings log = strayValues passed
  /-- There are no other events. -/
  only : ∀ e ∈ log, (∃ c, ws.HeadsChain c ∧ e.topic = .chain c.id) ∨
    (∃ b l, ws.Visited b ∧ b.kind = .ok (.loop l) ∧ e.topic = .loop b.id) ∨
    ∃ b x, ws.Visited b ∧ b.kind = .ok (.expression x) ∧ e.topic = .value b.id

/-- An event is the only one of its topic if no topic occurs twice. -/
theorem filter_topic_eq (hnodup : (log.map Event.topic).Nodup) {e : Event} (he : e ∈ log)
    (ht : e.topic = t) : log.filter (fun e => e.topic = t) = [e] := by
  obtain ⟨before, after, rfl⟩ := List.append_of_mem he
  rw [List.map_append, List.map_cons, List.nodup_middle, List.nodup_cons, ← List.map_append]
    at hnodup
  have hother : ∀ x ∈ before ++ after, ¬ decide (x.topic = t) = true := by
    intro x hx heq
    refine hnodup.1 (List.mem_map.mpr ⟨x, hx, ?_⟩)
    rw [ht, of_decide_eq_true heq]
  rw [List.forall_mem_append] at hother
  rw [List.filter_append, List.filter_cons_of_pos (by simpa using ht),
    List.filter_eq_nil_iff.mpr hother.1, List.filter_eq_nil_iff.mpr hother.2, List.nil_append]

theorem ProgramPass.headReport {ids : List BlockId} (h : ws.ProgramPass hooks ids passed log)
    {id : BlockId} (hid : id ∈ ids) (hfound : ws.find? id = some c) :
    ∃ steps, ws.ChainMeans hooks c steps ∧ .compiledChain c.id steps.length ∈ log := by
  induction h with
  | nil => exact absurd hid List.not_mem_nil
  | cons hhead hmeans _ _ ih =>
    rcases List.mem_cons.mp hid with rfl | hid
    · obtain rfl := Option.some.inj (hfound.symm.trans hhead)
      exact ⟨_, hmeans, List.mem_append_right _ List.mem_cons_self⟩
    · obtain ⟨steps, hsteps, hmem⟩ := ih hid
      exact ⟨steps, hsteps, List.mem_append_right _ (List.mem_cons_of_mem _ hmem)⟩

/-- Whatever is passed has its own part of the report in one piece. -/
theorem ProgramPass.exists_block {ids : List BlockId} (h : ws.ProgramPass hooks ids passed log)
    (hx : x ∈ passed) : ∃ rest log', ws.BlockPass hooks x rest log' ∧ log' <:+: log := by
  obtain ⟨rest, walk, hwalk, -, hlog⟩ := h.exists_piece hx
  obtain ⟨rest', log', hblock, hprefix⟩ := hwalk.exists_block
  exact ⟨rest', log', hblock, hprefix.isInfix.trans hlog⟩

theorem Lists.reported {forest : List Tree} (h : ws.Lists forest)
    (hpass : ws.ProgramPass hooks ws.topIds passed log) : ws.Reported hooks passed log := by
  have hids := h.nodup_ids_passed hpass
  have htopics := hpass.nodup_topics hids
  have hvisited : ∀ b, b ∈ passed ↔ ws.Visited b := fun b => hpass.mem_iff
  refine ⟨hids.of_map, hvisited, ?_, ?_, ?_, ?_, hpass.warnings_eq, ?_⟩
  · intro b c hb hbc
    obtain ⟨rest, walk, hwalk, hpiece, -⟩ := hpass.exists_piece ((hvisited b).mpr hb)
    have hlater := List.singleton_sublist.mpr (hwalk.mem_of_later hbc)
    exact (hlater.cons_cons b).trans hpiece.sublist
  · rintro c (⟨id, hid, hfound⟩ | ⟨b, hb, hruns⟩)
    · obtain ⟨steps, hmeans, hmem⟩ := hpass.headReport hid hfound
      exact ⟨steps, hmeans, filter_topic_eq htopics hmem rfl⟩
    · obtain ⟨rest, log', hblock, hpiece⟩ := hpass.exists_block ((hvisited b).mpr hb)
      obtain ⟨-, body, steps, e, -, hmeans, -, rfl⟩ := hblock.bodyReport hruns
      refine ⟨steps, hmeans, filter_topic_eq htopics (hpiece.subset ?_) rfl⟩
      exact List.mem_append_right _ List.mem_cons_self
  · intro b l hb hkind
    obtain ⟨rest, log', hblock, hpiece⟩ := hpass.exists_block ((hvisited b).mpr hb)
    obtain ⟨e, he, hreport⟩ := hblock.loopReport hkind
    exact ⟨e, hreport, filter_topic_eq htopics (hpiece.subset he) hreport.topic_eq⟩
  · intro b c hb hruns
    obtain ⟨rest, log', hblock, before, after, rfl⟩ := hpass.exists_block ((hvisited b).mpr hb)
    obtain ⟨rest', body, steps, e, hwalk, -, hreport, rfl⟩ := hblock.bodyReport hruns
    exact ⟨before, rest', body, steps.length, e, after, hwalk, hreport, by simp⟩
  · intro e he
    rcases hpass.concerns e he with hconcerns | ⟨id, hid, head, hfound, htopic⟩
    · generalize e.topic = t at hconcerns ⊢
      cases hconcerns with
      | loop hb hkind => exact .inr (.inl ⟨_, _, (hvisited _).mp hb, hkind, rfl⟩)
      | value hb hkind => exact .inr (.inr ⟨_, _, (hvisited _).mp hb, hkind, rfl⟩)
      | body hb _ hruns => exact .inl ⟨_, .inr ⟨_, (hvisited _).mp hb, hruns⟩, rfl⟩
    · exact .inl ⟨head, .inl ⟨id, hid, hfound⟩, htopic⟩

/-! ## The log -/

/-- The event is about a part of the program. -/
def Local (e : Event) : Prop := e.topic ≠ .program

section Parts

variable {body part : Block → Traced Failure (List Step)}

theorem reports_unroll (hbody : ∀ c, (body c).Reports Local) (limit : Nat) (b : Block)
    (count : Option Float) : (ws.unroll limit body b count).Reports Local := by
  unfold unroll
  split
  · exact Traced.reports_event nofun _
  · refine (Traced.reports_lift _).bind fun head => ?_
    dsimp only
    split
    · exact (Traced.reports_lift _).bind fun _ => Traced.reports_event nofun _
    · refine (hbody head).bind fun steps => ?_
      split
      · exact Traced.reports_event nofun _
      · split
        · exact (Traced.reports_throw _).bind fun _ => Traced.reports_event nofun _
        · exact Traced.reports_event nofun _

theorem reports_contribution (opts : Options) (hbody : ∀ c, (body c).Reports Local) (b : Block) :
    (ws.contribution opts body b).Reports Local := by
  unfold contribution
  refine (Traced.reports_lift _).bind fun k => ?_
  cases k with
  | expression e => exact Traced.reports_event nofun _
  | action a => exact (Traced.reports_lift _).bind fun _ => Traced.reports_pure _
  | loop l => exact (Traced.reports_lift _).bind fun count => reports_unroll hbody _ b count

theorem reports_walk (hpart : ∀ b, (part b).Reports Local) (limit bound : Nat)
    {events : Array Event} (hevents : ∀ e ∈ events.toList, Local e) (steps : Array Step)
    (b : Block) : (ws.walk limit part bound events steps b).Reports Local := by
  induction bound generalizing events steps b with
  | zero => exact hevents
  | succ bound ih =>
    have hmore : ∀ e ∈ (events ++ (part b).events).toList, Local e := by
      rw [Array.toList_appendList]
      exact List.forall_mem_append.mpr ⟨hevents, hpart b⟩
    unfold walk
    dsimp only
    -- The walk ends with these events, or it goes on behind them.
    repeat' split
    all_goals first | exact hmore | exact ih hmore _ _

end Parts

theorem reports_chainWithin (nest : Nat) (head : Block) :
    (ws.chainWithin opts nest head).Reports Local := by
  induction nest generalizing head with
  | zero => exact Traced.reports_throw _
  | succ nest ih =>
    refine Traced.Reports.bind ?_ fun _ => Traced.reports_event nofun _
    exact reports_walk (reports_contribution opts ih) opts.maxSteps _ (List.forall_mem_nil _) #[]
      head

theorem reports_chains (done : Nat) (ids : List BlockId) :
    (ws.chains opts done ids).Reports Local := by
  induction ids generalizing done with
  | nil => exact Traced.reports_pure _
  | cons id rest ih =>
    refine (Traced.reports_lift _).bind fun head => ?_
    refine (reports_chainWithin _ head).bind fun steps => ?_
    refine (Traced.reports_lift _).bind fun _ => ?_
    exact (ih _).bind fun _ => Traced.reports_pure _

/-- An event about a part of the program has its line. -/
theorem Local.loggedAs {e : Event} (h : Local e) : e.LoggedAs e.line := by
  cases e with
  | loadingWorkspace | loadedWorkspace | compilingWorkspace | compiledWorkspace =>
    exact absurd rfl h
  | compiledChain head steps => exact .compiledChain head steps
  | strayValue block type => exact .strayValue block type
  | loopWithoutBody block => exact .loopWithoutBody block
  | loopNotRun block => exact .loopNotRun block
  | loopBodyEmpty block trips =>
    exact .loopBodyEmpty block trips (Decimal.plain trips) Decimal.number?_plain
  | loopUnrolled block trips bodySteps steps => exact .loopUnrolled block trips bodySteps steps

/-- Everything that a compilation reports has its line, however the compilation comes out. -/
theorem reports_trace (opts : Options) :
    (ws.trace opts).Reports fun e => e.LoggedAs e.line := by
  refine (Traced.reports_report (.compilingWorkspace _ _)).bind fun _ => ?_
  refine Traced.Reports.bind (fun e he => (reports_chains 0 ws.topIds e he).loggedAs) fun _ => ?_
  exact Traced.reports_event (.compiledWorkspace _) _

/-! ## Compilations that fail -/

/-- A compilation that fails does not say that it is done. -/
theorem compiledWorkspace_not_mem {f : Failure} (h : ws.compile opts = .error f) (steps : Nat) :
    .compiledWorkspace steps ∉ (ws.trace opts).events := by
  rw [compile, compileFrom_eq] at h
  have hchains : (ws.chains opts 0 ws.topIds).outcome = .error f := by
    rw [outcome_chains]
    cases hsteps : ws.chainsOutcome opts 0 ws.topIds with
    | error e =>
      rw [hsteps] at h
      exact congrArg _ (Except.error.inj h)
    | ok steps =>
      rw [hsteps] at h
      cases h
  unfold trace traceFrom
  rw [Traced.events_bind_ok (Traced.outcome_report _), Traced.events_bind_error hchains]
  intro hmem
  rcases List.mem_cons.mp hmem with heq | hmem
  · cases heq
  · exact reports_chains 0 ws.topIds _ hmem rfl

theorem message_ne_of_error {f : Failure} (h : ws.compile opts = .error f) :
    ∀ e ∈ (ws.trace opts).events, e.message ≠ "Compiled workspace" := by
  intro e he
  cases e with
  | compiledWorkspace steps => exact absurd he (compiledWorkspace_not_mem h steps)
  | loadingWorkspace | loadedWorkspace | compilingWorkspace | compiledChain | strayValue
  | loopWithoutBody | loopNotRun | loopBodyEmpty | loopUnrolled => simp [Event.message]

/-- **The report is that of one pass over the program.**  A compilation of a loaded workspace that
succeeds first reports that it begins, with the numbers of blocks and chains, and at last that it is
done, with the length of the document.  Between the two there is one event for each chain that is
compiled, one for each loop on such a chain, behind the events of its body, and one warning for each
value on such a chain, in the order of the chains.  However many turns the loops have, and however
they are nested, no event is repeated.  A compilation that fails does not say that it is done.  In
a log, each event has the level, the message and the fields that `Event.LoggedAs` lists. -/
theorem reported_of_ofText {order : TopOrder} {text : String} (h : ofText order text = .ok ws)
    (opts : Options) :
    (∀ e ∈ (ws.trace opts).events, e.LoggedAs ⟨e.level, e.message, e.fields⟩) ∧
    (∀ doc, ws.compile opts = .ok doc → ∃ passed log,
      (ws.trace opts).events = .compilingWorkspace ws.size ws.topIds.length ::
        (log ++ [.compiledWorkspace doc.length]) ∧
      ws.ProgramPass opts.hooks ws.topIds passed log ∧ ws.Reported opts.hooks passed log) ∧
    ∀ f, ws.compile opts = .error f →
      (∀ steps, .compiledWorkspace steps ∉ (ws.trace opts).events) ∧
      ∀ e ∈ (ws.trace opts).events, e.message ≠ "Compiled workspace" := by
  obtain ⟨blocks, -, hlists⟩ := lists_of_ofText h
  refine ⟨reports_trace opts, fun doc hdoc => ?_,
    fun f hf => ⟨compiledWorkspace_not_mem hf, message_ne_of_error hf⟩⟩
  obtain ⟨passed, log, hpass, hevents⟩ := exists_programPass hdoc
  exact ⟨passed, log, hevents, hpass, hlists.reported hpass⟩

/-- A text with a loop around a value and a loop, before a loop without a body, and a second chain
with a picture. -/
def loopsText : String := "\x7b\"blocks\": \x7b\"blocks\": [
  \x7b\"type\": \"controls_repeat\", \"id\": \"r\", \"fields\": \x7b\"TIMES\": 2\x7d,
    \"inputs\": \x7b\"DO\": \x7b\"block\": \x7b\"type\": \"math_number\", \"id\": \"n\",
      \"next\": \x7b\"block\": \x7b\"type\": \"controls_repeat\", \"id\": \"q\",
        \"fields\": \x7b\"TIMES\": 3\x7d, \"inputs\": \x7b\"DO\": \x7b\"block\":
          \x7b\"type\": \"wait_time_block\", \"id\": \"w\"\x7d\x7d\x7d\x7d\x7d\x7d\x7d\x7d,
    \"next\": \x7b\"block\": \x7b\"type\": \"controls_repeat\", \"id\": \"e\"\x7d\x7d\x7d,
  \x7b\"type\": \"acquire_frame_block\", \"id\": \"f\"\x7d]\x7d\x7d"

/-- The blocks of `loopsText`. -/
def loops : Workspace where
  blocks := #[
    { id := "n", type := "math_number", next := some "q" },
    { id := "w", type := "wait_time_block" },
    { id := "q", type := "controls_repeat", fields := .ofList [("TIMES", .number 3)],
      statements := .ofList [("DO", "w")] },
    { id := "r", type := "controls_repeat", fields := .ofList [("TIMES", .number 2)],
      statements := .ofList [("DO", "n")], next := some "e" },
    { id := "e", type := "controls_repeat" },
    { id := "f", type := "acquire_frame_block" }]

set_option maxRecDepth 5000 in
theorem ofText_loopsText : ofText .asListed loopsText = .ok loops := by
  apply eq_ok_of_toOption
  rw [ofText, SavedBlock.ofText, Json.readFrom,
    Json.Draft.ofText_eq (show loopsText = String.ofList _ by exact rfl)]
  decide +kernel

/-- The document of `loops`. -/
def loopsDocument : Document :=
  let waits : List Step := [[0, 0], [0, 1], [0, 2], [1, 0], [1, 1], [1, 2]].map fun path =>
    { id := "w", stepName := "Wait Time", mainFunc := "wait_time",
      mainParams := .ofList [("seconds", .number 1)], iteration := path }
  let picture : Step :=
    { id := "f", stepName := "Acquire Frame", mainFunc := "acquire_frame",
      mainParams := .ofList [("channel", .text "Mono")] }
  ⟨waits ++ [picture]⟩

/-- Six waits and a picture take ten events, and four steps allowed are too few for them. -/
theorem reported_of_ofText_loops :
    loops.compile {} = .ok loopsDocument ∧
      (loops.trace {}).events.map Event.line = [
        ⟨.info, "Compiling workspace", [("blocks", "6"), ("chains", "2")]⟩,
        ⟨.warn, "Value block in statement position contributes no steps",
          [("block_id", "n"), ("block_type", "math_number")]⟩,
        ⟨.debug, "Compiled chain", [("head", "w"), ("steps", "1")]⟩,
        ⟨.debug, "Unrolled repeat block",
          [("block_id", "q"), ("trips", "3"), ("body_steps", "1"), ("steps", "3")]⟩,
        ⟨.debug, "Compiled chain", [("head", "n"), ("steps", "3")]⟩,
        ⟨.debug, "Unrolled repeat block",
          [("block_id", "r"), ("trips", "2"), ("body_steps", "3"), ("steps", "6")]⟩,
        ⟨.debug, "Repeat block has no body", [("block_id", "e")]⟩,
        ⟨.debug, "Compiled chain", [("head", "r"), ("steps", "6")]⟩,
        ⟨.debug, "Compiled chain", [("head", "f"), ("steps", "1")]⟩,
        ⟨.info, "Compiled workspace", [("steps", "7")]⟩] ∧
      (∀ e ∈ (loops.trace {}).events, e.LoggedAs e.line) ∧
      (∃ passed log,
        (loops.trace {}).events = .compilingWorkspace loops.size loops.topIds.length ::
          (log ++ [.compiledWorkspace loopsDocument.length]) ∧
        loops.ProgramPass {} loops.topIds passed log ∧ loops.Reported {} passed log) ∧
      loops.compile { maxSteps := 4 } = .error (.rejected (.stepLimitExceeded 4 "r")) ∧
      ∀ e ∈ (loops.trace { maxSteps := 4 }).events, e.message ≠ "Compiled workspace" := by
  have hdoc : loops.compile {} = .ok loopsDocument := by decide +kernel
  have hfails : loops.compile { maxSteps := 4 } =
      .error (.rejected (.stepLimitExceeded 4 "r")) := by
    decide +kernel
  obtain ⟨hlines, hreported, -⟩ := reported_of_ofText ofText_loopsText {}
  obtain ⟨-, -, hsilent⟩ := reported_of_ofText ofText_loopsText { maxSteps := 4 }
  exact ⟨hdoc, by decide +kernel, hlines, hreported _ hdoc, hfails, (hsilent _ hfails).2⟩

end Workspace

end BlockSteps

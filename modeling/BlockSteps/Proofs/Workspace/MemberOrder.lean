import Mathlib
import BlockSteps.Proofs.Json.MemberOrder
import BlockSteps.Proofs.Workspace.Forest

/-!
# The order of members in a saved workspace

Whoever writes a saved workspace may write the members of its objects in any order, and may add
members that the format does not know to a workspace, to its list of blocks, to a block and to a
connection.  What is loaded is the same graph, block by block in the same order, although that order
follows the nesting of the inputs: they are taken by the names of their slots.

**Main statement.**  `Workspace.ofText_of_rearranged`.
-/

namespace BlockSteps

open Json (Draft Format Rearranged Steady)

/-! ## The format -/

/-- A place in the text of a saved workspace. -/
inductive Place where
  /-- The whole of it. -/
  | workspace
  /-- The object that holds the top blocks and the version. -/
  | listing
  /-- The top blocks. -/
  | blocks
  /-- A block. -/
  | block
  /-- The inputs of a block. -/
  | inputs
  /-- A connection: an input, or what comes next. -/
  | connection
  /-- Anything else, down to its leaves. -/
  | value
  deriving Repr, DecidableEq

/-- The names that mean something in an object at a place, in the order in which an array lists
their values, and where these stand.  Inputs and other values may have any names. -/
def Place.members? : Place → Option (List (String × Place))
  | .workspace => some [("blocks", .listing)]
  | .listing => some [("blocks", .blocks)]
  | .block => some [("type", .value), ("id", .value), ("x", .value), ("y", .value),
      ("fields", .value), ("inputs", .inputs), ("next", .connection)]
  | .connection => some [("block", .block), ("shadow", .block)]
  | .blocks => none
  | .inputs => none
  | .value => none

/-- The format of saved workspaces. -/
def savedFormat : Format Place where
  knows place name :=
    match place.members? with
    | some members => (members.map Prod.fst).contains name
    | none => true
  under place name :=
    match place.members? with
    | some members => ((name.bind fun name => Dict.find? name members).getD .value)
    | none => if place = .inputs then .connection else .value
  item place i :=
    match place.members? with
    | some members => (members[i]?.map Prod.snd).getD .value
    | none => if place = .blocks then .block else .value

theorem closed_value : savedFormat.Closed .value := ⟨fun _ => rfl, fun _ => rfl, fun _ => rfl⟩

/-! ## The height of a rearranged draft -/

section Height

open Json

variable {P : Type} {F : Format P}

theorem membersHeight_le_iff {members : List (Option String × Draft)} {n : ℕ} :
    membersHeight members ≤ n ↔ ∀ m ∈ members, m.2.height ≤ n := by
  induction members with
  | nil => simp [membersHeight]
  | cons m members ih => simp [membersHeight, ih]

mutual

/-- Rearranging takes nothing away. -/
theorem height_le_of_rearranged : ∀ {p : P} {d d' : Draft}, Rearranged F p d d' →
    d.height ≤ d'.height
  | _, .null, _, .null => le_refl _
  | _, .boolean _, _, .boolean _ => le_refl _
  | _, .number _, _, .number _ => le_refl _
  | _, .text _, _, .text _ => le_refl _
  | _, .array _ _, _, .array h => Nat.succ_le_succ (itemsHeight_le_of_rearranged h)
  | _, .object _ _, _, .object h _ hperm => by
    refine Nat.succ_le_succ ((membersHeight_le_of_rearranged h).trans ?_)
    refine membersHeight_le_iff.mpr fun m hm => ?_
    exact membersHeight_le_iff.mp (le_refl _) m (hperm.mem_iff.mp (List.mem_append_right _ hm))

theorem itemsHeight_le_of_rearranged : ∀ {p : P} {i : ℕ} {items items' : List Draft},
    RearrangedItems F p i items items' → itemsHeight items ≤ itemsHeight items'
  | _, _, [], _, .nil => le_refl _
  | _, _, _ :: _, _, .cons h hrest =>
    max_le_max (height_le_of_rearranged h) (itemsHeight_le_of_rearranged hrest)

theorem membersHeight_le_of_rearranged :
    ∀ {p : P} {members members' : List (Option String × Draft)},
      RearrangedMembers F p members members' → membersHeight members ≤ membersHeight members'
  | _, [], _, .nil => le_refl _
  | _, _ :: _, _, .cons h hrest =>
    max_le_max (height_le_of_rearranged h) (membersHeight_le_of_rearranged hrest)

end

end Height

/-! ## Steady readers -/

variable {read read' : Json.Reader SavedBlock}

/-- Connections are read steadily if blocks are. -/
theorem steady_connection (h : Steady savedFormat .block read read') :
    Steady savedFormat .connection (Connection.record read).read
      (Connection.record read').read := by
  refine Json.steady_record rfl ?_ ?_ fun name hname => List.contains_iff_mem.mpr hname
  · exact .cons rfl (Json.steady_readOptional h) (.cons rfl (Json.steady_readOptional h) .nil)
  · simp only [Connection.record, List.pairwise_cons, List.forall_mem_cons, List.not_mem_nil,
      IsEmpty.forall_iff, implies_true, List.Pairwise.nil, and_true]
    exact Json.Field.apart_of fun _ _ _ => rfl

/-- Blocks are read steadily if those attached to them are. -/
theorem steady_block (h : Steady savedFormat .block read read') :
    Steady savedFormat .block (SavedBlock.record read).read (SavedBlock.record read').read := by
  have hinputs : Steady savedFormat .inputs (Json.readDict (Connection.record read).read)
      (Json.readDict (Connection.record read').read) :=
    Json.steady_readDict (fun _ => rfl) fun _ => steady_connection h
  have hfields : Steady savedFormat .value (Json.readDict (Draft.json none))
      (Json.readDict (Draft.json none)) :=
    Json.steady_readDict closed_value.knows fun _ => Json.steady_json closed_value none
  refine Json.steady_record rfl ?_ ?_ fun name hname => List.contains_iff_mem.mpr hname
  · exact .cons rfl Json.steady_readText (.cons rfl Json.steady_readText
      (.cons rfl Json.steady_readNumber (.cons rfl Json.steady_readNumber (.cons rfl hfields
        (.cons rfl hinputs (.cons rfl (Json.steady_readOptional (steady_connection h)) .nil))))))
  · simp only [SavedBlock.record, List.pairwise_cons, List.forall_mem_cons, List.not_mem_nil,
      IsEmpty.forall_iff, implies_true, List.Pairwise.nil, and_true]
    and_intros
    all_goals exact Json.Field.apart_of fun _ _ _ => rfl

/-- What is read within a height is read from a rearranged draft, within any greater height. -/
theorem SavedBlock.steady_readWithin {height height' : ℕ} (hle : height ≤ height') :
    Steady savedFormat .block (readWithin height) (readWithin height') := by
  induction height generalizing height' with
  | zero => exact fun _ _ _ _ _ h => by cases h
  | succ height ih =>
    obtain ⟨height', rfl⟩ : ∃ n, height' = n + 1 := ⟨height' - 1, by omega⟩
    exact steady_block (ih (Nat.le_of_succ_le_succ hle))

theorem SavedBlock.steady_read :
    Steady savedFormat .block SavedBlock.read SavedBlock.read := by
  intro d d' b hd hdistinct hb
  exact steady_readWithin (height_le_of_rearranged hd) d d' b hd hdistinct hb

theorem SavedBlock.steady_workspace :
    Steady savedFormat .workspace workspaceRecord.read workspaceRecord.read := by
  have hlist : Steady savedFormat .listing listRecord.read listRecord.read := by
    refine Json.steady_record rfl ?_ (List.pairwise_singleton ..)
      fun name hname => List.contains_iff_mem.mpr hname
    exact .cons rfl (Json.steady_readList fun _ => steady_read) .nil
  refine Json.steady_record rfl ?_ (List.pairwise_singleton ..)
    fun name hname => List.contains_iff_mem.mpr hname
  exact .cons rfl (Json.steady_readOptional hlist) .nil

/-! ## Loading -/

namespace Workspace

/-- **The order of members does not count, nor do members that the format does not know.**  Take a
text that is loaded as a workspace and in which no object repeats a name, and rearrange its members
at whatever depth, with whatever unknown members more.  Then there is a text that has them so, and
every such text is loaded as the same workspace: the same blocks in the same order, and so the same
top blocks. -/
theorem ofText_of_rearranged {order : TopOrder} {text : String} {ws : Workspace}
    (h : ofText order text = .ok ws) (hdistinct : (Draft.ofText text).1.distinct = true) {d : Draft}
    (hd : Rearranged savedFormat .workspace (Draft.ofText text).1 d) :
    (∃ text', Draft.ofText text' = (d, true)) ∧
      ∀ text', Draft.ofText text' = (d, true) → ofText order text' = .ok ws := by
  unfold ofText at h ⊢
  cases hblocks : SavedBlock.ofText text with
  | error e =>
    rw [hblocks] at h
    cases h
  | ok blocks =>
    refine ⟨Json.exists_ofText_of_rearranged (Json.ended_of_readFrom hblocks) hd,
      fun text' htext' => ?_⟩
    have hblocks' : SavedBlock.ofText text' = .ok blocks :=
      Json.readFrom_of_rearranged SavedBlock.steady_workspace hdistinct hd htext' hblocks
    rw [hblocks] at h
    rw [hblocks']
    exact h

/-- A loop around a wait. -/
def loopText : String :=
  "\x7b\"blocks\": \x7b\"blocks\": [\x7b\"type\": \"controls_repeat_ext\", \"id\": \"loop\",
    \"inputs\": \x7b\"DO\": \x7b\"block\":
      \x7b\"type\": \"wait_time_block\", \"id\": \"w\"\x7d\x7d\x7d\x7d]\x7d\x7d"

/-- The same, written in another order and with some members more. -/
def otherLoopText : String :=
  "\x7b\"blocks\": \x7b\"languageVersion\": 0, \"blocks\": [\x7b\"deletable\": [true],
    \"id\": \"loop\", \"type\": \"controls_repeat_ext\",
    \"inputs\": \x7b\"DO\": \x7b\"block\":
      \x7b\"id\": \"w\", \"type\": \"wait_time_block\"\x7d, \"type\": null\x7d\x7d\x7d]\x7d\x7d"

set_option maxRecDepth 5000 in
theorem draft_loopText : Draft.ofText loopText =
    (.object [(some "blocks", .object [(some "blocks", .array [.object [
      (some "type", .text "controls_repeat_ext"), (some "id", .text "loop"),
      (some "inputs", .object [(some "DO", .object [(some "block", .object [
        (some "type", .text "wait_time_block"), (some "id", .text "w")] none)] none)] none)]
      none] none)] none)] none, true) := by
  rw [Draft.ofText_eq (show loopText = String.ofList _ by exact rfl)]
  rfl

set_option maxRecDepth 5000 in
theorem draft_otherLoopText : Draft.ofText otherLoopText =
    (.object [(some "blocks", .object [(some "languageVersion", .number ⟨false, ['0'], [], none⟩),
      (some "blocks", .array [.object [(some "deletable", .array [.boolean true] none),
        (some "id", .text "loop"), (some "type", .text "controls_repeat_ext"),
        (some "inputs", .object [(some "DO", .object [(some "block", .object [
          (some "id", .text "w"), (some "type", .text "wait_time_block")] none),
          (some "type", .null)] none)] none)] none] none)] none)] none, true) := by
  rw [Draft.ofText_eq (show otherLoopText = String.ofList _ by exact rfl)]
  rfl

theorem rearranged_loopText : Rearranged savedFormat .workspace (Draft.ofText loopText).1
    (Draft.ofText otherLoopText).1 := by
  have hadds : ∀ {place : Place} {name : String} {value : Draft},
      savedFormat.knows place name = false → value.whole = true →
      savedFormat.Adds place [(some name, value)] := by
    intro place name value hname hvalue m hm
    rw [List.mem_singleton.mp hm]
    exact ⟨⟨name, rfl, hname⟩, hvalue⟩
  have hnone : ∀ {place : Place}, savedFormat.Adds place [] :=
    fun _ h => absurd h List.not_mem_nil
  rw [draft_loopText, draft_otherLoopText]
  refine .object (.cons ?_ .nil) hnone (.refl _)
  refine .object (.cons ?_ .nil) (hadds (by rfl) (by rfl)) (.refl _)
  refine .array (.cons ?_ .nil)
  refine .object (.cons (.text _) (.cons (.text _) (.cons ?_ .nil))) (hadds (by rfl) (by rfl))
    (.cons _ (.swap _ _ _))
  refine .object (.cons ?_ .nil) hnone (.refl _)
  refine .object (.cons ?_ .nil) (hadds (by rfl) (by rfl)) (.swap _ _ _)
  exact .object (.cons (.text _) (.cons (.text _) .nil)) hnone (.swap _ _ _)

/-- The workspace of both. -/
def loopWorkspace : Workspace where
  blocks := #[
    { id := "w", type := "wait_time_block" },
    { id := "loop", type := "controls_repeat_ext", statements := .ofList [("DO", "w")] }]

theorem ofText_of_rearranged_loop :
    ofText .position loopText = .ok loopWorkspace ∧
      (Draft.ofText loopText).1.distinct = true ∧
      Rearranged savedFormat .workspace (Draft.ofText loopText).1 (Draft.ofText otherLoopText).1 ∧
      ofText .position otherLoopText = .ok loopWorkspace := by
  have hloop : ofText .position loopText = .ok loopWorkspace := by
    apply eq_ok_of_toOption
    rw [ofText, SavedBlock.ofText, Json.readFrom, draft_loopText]
    decide +kernel
  have hdistinct : (Draft.ofText loopText).1.distinct = true := by
    rw [draft_loopText]
    decide +kernel
  have hother : Draft.ofText otherLoopText = ((Draft.ofText otherLoopText).1, true) := by
    rw [draft_otherLoopText]
  exact ⟨hloop, hdistinct, rearranged_loopText,
    (ofText_of_rearranged hloop hdistinct rearranged_loopText).2 _ hother⟩

end Workspace

end BlockSteps

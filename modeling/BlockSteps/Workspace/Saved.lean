import BlockSteps.Workspace.Basic

/-!
# Saved workspaces

The editor saves a workspace as nested blocks: a block holds the blocks attached to its inputs and
the block that comes next.  Each such place is a *connection*, and a connection can hold a real
block, a shadow block that stands in for a missing one, both or neither.

`SavedBlock` is that nesting as it was read.  `Tree` is what of it counts: in every connection the
real block if there is one, else the shadow, else nothing.  The blocks of a tree are **retained**;
all others are as if they had not been there, whatever is wrong with them.

Reading runs on the height of the draft: a nested block lies strictly lower than the block that
holds it, and a draft of height zero holds no block.
-/

namespace BlockSteps

/-- A place where a block can be attached. -/
structure Connection (β : Type) where
  /-- The real block. -/
  block : Option β := none
  /-- The block that stands in for a missing one. -/
  shadow : Option β := none

/-- A block with the blocks attached to it. -/
structure SavedBlock where
  /-- The tag of the kind. -/
  type : String
  /-- The id. -/
  id : BlockId
  /-- The distance from the left edge of the canvas. -/
  x : Float
  /-- The distance from the upper edge of the canvas. -/
  y : Float
  /-- The fields, not yet looked at. -/
  fields : Dict Json
  /-- The inputs, in the order of their slots. -/
  inputs : List (String × Connection SavedBlock)
  /-- The block that comes next. -/
  next : Option (Connection SavedBlock)

/-- A retained block with the retained blocks attached to it. -/
structure Tree where
  /-- The tag of the kind. -/
  type : String
  /-- The id. -/
  id : BlockId
  /-- The fields, not yet looked at. -/
  fields : Dict Json
  /-- The inputs that hold a block, in the order of their slots. -/
  inputs : List (String × Tree)
  /-- The block that comes next. -/
  next : Option Tree

/-! ## Retaining -/

mutual

/-- The retained part of a block. -/
def SavedBlock.retained : SavedBlock → Tree
  | ⟨type, id, _, _, fields, inputs, next⟩ =>
    ⟨type, id, fields, retainedInputs inputs, retainedNext next⟩

/-- The retained part of the inputs: those that hold a block. -/
def retainedInputs : List (String × Connection SavedBlock) → List (String × Tree)
  | [] => []
  | (slot, ⟨some b, _⟩) :: rest => (slot, b.retained) :: retainedInputs rest
  | (slot, ⟨none, some b⟩) :: rest => (slot, b.retained) :: retainedInputs rest
  | (_, ⟨none, none⟩) :: rest => retainedInputs rest

/-- The retained part of what comes next. -/
def retainedNext : Option (Connection SavedBlock) → Option Tree
  | none => none
  | some ⟨some b, _⟩ => some b.retained
  | some ⟨none, some b⟩ => some b.retained
  | some ⟨none, none⟩ => none

end

/-! ## Reading -/

namespace Json

mutual

/-- How many levels a draft has below its root. -/
def Draft.height : Draft → Nat
  | .array items _ => itemsHeight items + 1
  | .object members _ => membersHeight members + 1
  | .null => 0
  | .boolean _ => 0
  | .number _ => 0
  | .text _ => 0
  | .fault _ => 0

/-- The greatest height among the items of an array. -/
def itemsHeight : List Draft → Nat
  | [] => 0
  | item :: rest => max item.height (itemsHeight rest)

/-- The greatest height among the members of an object. -/
def membersHeight : List (Option String × Draft) → Nat
  | [] => 0
  | (_, value) :: rest => max value.height (membersHeight rest)

end

end Json

/-- A connection, given how its blocks are read. -/
def Connection.record {β : Type} (read : Json.Reader β) : Json.Record (Connection β) where
  name := "SerializedConnection"
  fields := [
    .of "block" false (Json.readOptional read) fun b c => { c with block := b },
    .of "shadow" false (Json.readOptional read) fun b c => { c with shadow := b }]
  blank := {}

/-- A block, given how the blocks attached to it are read. -/
def SavedBlock.record (read : Json.Reader SavedBlock) : Json.Record SavedBlock where
  name := "SerializedBlock"
  fields := [
    .of "type" true Json.readText fun v b => { b with type := v },
    .of "id" true Json.readText fun v b => { b with id := v },
    .of "x" false Json.readNumber fun v b => { b with x := v },
    .of "y" false Json.readNumber fun v b => { b with y := v },
    .of "fields" false (Json.readDict (Json.Draft.json none)) fun v b => { b with fields := v },
    .of "inputs" false (Json.readDict (Connection.record read).read)
      fun v b => { b with inputs := v.entries },
    .of "next" false (Json.readOptional (Connection.record read).read)
      fun v b => { b with next := v }]
  blank := ⟨"", "", 0, 0, {}, [], none⟩

/-- Read a block from a draft that is at most `height` levels high. -/
def SavedBlock.readWithin : (height : Nat) → Json.Reader SavedBlock
  | 0 => fun d => .error (d.refuse "struct SerializedBlock")
  | height + 1 => (SavedBlock.record (SavedBlock.readWithin height)).read

/-- Read a block. -/
def SavedBlock.read : Json.Reader SavedBlock := fun d => SavedBlock.readWithin d.height d

/-- The list of top blocks, inside the object that also holds the version of the format. -/
def SavedBlock.listRecord : Json.Record (List SavedBlock) where
  name := "SerializedBlocks"
  fields := [.of "blocks" false (Json.readList SavedBlock.read) fun v _ => v]
  blank := []

/-- A saved workspace: its top blocks in the order of the text. -/
def SavedBlock.workspaceRecord : Json.Record (List SavedBlock) where
  name := "SerializedWorkspace"
  fields := [.of "blocks" false (Json.readOptional SavedBlock.listRecord.read)
    fun v _ => v.getD []]
  blank := []

/-- Read the top blocks of a saved workspace. -/
def SavedBlock.ofText (text : String) : Except Json.ReadError (List SavedBlock) :=
  Json.readFrom SavedBlock.workspaceRecord.read text

end BlockSteps

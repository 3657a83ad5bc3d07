import BlockSteps.Workspace.Saved
import BlockSteps.Traced

/-!
# Loading a workspace

Loading flattens the retained trees of a saved workspace into one graph.  The blocks of a tree are
inserted chain by chain, each block **right after the chains of its own inputs**, these in the order
of their slots.  What was nesting becomes reference by id: the retained block in a slot becomes the
id in that slot, the retained next block the next id.

A block is checked before the blocks attached to it: first its type, then its fields in the order
of their names, then its inputs; last of all whether its id is free.  A loaded workspace has only
blocks of the catalog.
-/

namespace BlockSteps

/-- In which order the chains of a saved workspace are taken. -/
inductive TopOrder where
  /-- From top to bottom on the canvas. -/
  | position
  /-- As the text lists them. -/
  | asListed
  deriving Repr, DecidableEq

instance : Inhabited TopOrder := ⟨.position⟩

/-! ## The order of the chains -/

/-- The sine of three degrees: the canvas is looked at with a slight tilt, so that of two blocks at
about one height the left one comes first. -/
def tilt : Float := 0.052335956242943835

/-- The height at which a block is seen. -/
def SavedBlock.tiltedHeight (b : SavedBlock) : Float := b.y + tilt * b.x

/-- Whether the first block is not seen below the second. -/
def SavedBlock.notBelow (a b : SavedBlock) : Bool :=
  decide (Decimal.totalRank a.tiltedHeight ≤ Decimal.totalRank b.tiltedHeight)

/-- The top blocks in the wanted order; blocks seen at one height stay as listed. -/
def TopOrder.arrange (order : TopOrder) (blocks : List SavedBlock) : List SavedBlock :=
  match order with
  | .position => blocks.mergeSort SavedBlock.notBelow
  | .asListed => blocks

/-! ## Flattening -/

/-- The fields of a block, in the order of their names, or the first that is no literal. -/
def literalFields (id : BlockId) :
    List (String × Json) → Except CompileError (List (String × FieldValue))
  | [] => .ok []
  | (name, value) :: rest =>
    match FieldValue.ofJson? value with
    | some v => do
      let vs ← literalFields id rest
      pure ((name, v) :: vs)
    | none => .error (.malformedLiteral id name value.compact)

/-- The inputs in the slots that a predicate picks, as ids. -/
def inputIds (pick : String → Bool) (inputs : List (String × Tree)) : Dict BlockId :=
  Dict.ofList ((inputs.filter fun p => pick p.1).map fun p => (p.1, p.2.id))

/-- The block of the graph that a tree of a known kind begins with. -/
def Tree.block (t : Tree) (kind : Kind) (fields : List (String × FieldValue)) : Block where
  id := t.id
  type := t.type
  fields := Dict.ofList fields
  values := inputIds (fun slot => !kind.statementSlots.contains slot) t.inputs
  statements := inputIds (fun slot => kind.statementSlots.contains slot) t.inputs
  next := t.next.map Tree.id

/-- The kind of the block that a tree begins with. -/
def Tree.kind (t : Tree) : Except CompileError Kind :=
  match Kind.ofTag? t.type with
  | some k => .ok k
  | none => .error (.unknownBlockType t.type t.id)

mutual

/-- Insert the chain that begins with a tree. -/
def Tree.flatten : Tree → Workspace → Except CompileError Workspace
  | ⟨type, id, fields, inputs, next⟩, ws => do
    let t : Tree := ⟨type, id, fields, inputs, next⟩
    let kind ← t.kind
    let literals ← literalFields id fields.entries
    let ws ← flattenInputs inputs ws
    let ws ← ws.insert (t.block kind literals)
    flattenNext next ws

/-- Insert the chains of inputs, one after the other. -/
def flattenInputs : List (String × Tree) → Workspace → Except CompileError Workspace
  | [], ws => .ok ws
  | (_, t) :: rest, ws => do
    let ws ← t.flatten ws
    flattenInputs rest ws

/-- Insert the rest of a chain. -/
def flattenNext : Option Tree → Workspace → Except CompileError Workspace
  | none, ws => .ok ws
  | some t, ws => t.flatten ws

end

/-- Insert several chains, one after the other. -/
def flattenAll : List Tree → Workspace → Except CompileError Workspace
  | [], ws => .ok ws
  | t :: rest, ws => do
    let ws ← t.flatten ws
    flattenAll rest ws

/-! ## Loading -/

namespace Workspace

/-- The workspace of saved top blocks. -/
def ofSaved (order : TopOrder) (blocks : List SavedBlock) : Except CompileError Workspace :=
  flattenAll ((order.arrange blocks).map SavedBlock.retained) empty

/-- The workspace that a text describes. -/
def ofText (order : TopOrder) (text : String) : Except LoadError Workspace :=
  match SavedBlock.ofText text with
  | .error e => .error (.unread e)
  | .ok blocks =>
    match ofSaved order blocks with
    | .error e => .error (.invalid e)
    | .ok ws => .ok ws

/-- Load a text, with the report. -/
def load (order : TopOrder) (text : String) : Traced LoadError Workspace := do
  let ws ← Traced.ofExcept (ofText order text)
  Traced.report (.loadedWorkspace ws.size)
  pure ws

/-- Load a file, given its path and its bytes, none if it cannot be read, with the report. -/
def loadFile (order : TopOrder) (path : String) (bytes : Option ByteArray) :
    Traced LoadError Workspace := do
  Traced.report (.loadingWorkspace path)
  match bytes.bind String.fromUTF8? with
  | none => throw .unreadable
  | some text => load order text

end Workspace

end BlockSteps

import BlockSteps.Compile.Action

/-!
# Chains and loops

A chain is followed from its head along the next links, and the steps of its blocks are put one
behind the other.  A loop block contributes the steps of its body once for each turn, every copy
with the number of the turn put in front of its iteration path.

**Sizes are compared before anything is copied.**  The number of turns is read off the double as an
exact natural number, so neither a count beyond 64 bits nor a limit that is no double is rounded in
the comparison, and a loop that would exceed the limit costs nothing.

**A loop that is not run is still checked.**  Its body is not compiled, but every block that can be
reached from it must be of the catalog, and every reference must have its block
(`Workspace.validate`).

**Bounds.**  Loops nest through their bodies; `nest` bounds how deep, and a way through more bodies
than there are blocks visits some block twice.  Along a chain the links can lead in a circle.  A
circle on which some block gives a step is ended by the limit, after at most one round for each step
that is allowed and one more; `walkBound` allows for that.  What a bound stops is `Failure.endless`.
-/

namespace BlockSteps

/-! ## Turns -/

/-- The number of turns that a count asks for: its whole part, and none below one. -/
def tripCount (count : Option Float) : Float :=
  match count with
  | some n => if 1 ≤ n then Decimal.truncate n else 0
  | none => 0

/-- The steps of a body, once for each turn. -/
def unrolled (trips : Nat) (body : List Step) : List Step :=
  (List.range trips).flatMap fun turn => body.map fun s => s.inTurn turn

@[simp] theorem length_unrolled (trips : Nat) (body : List Step) :
    (unrolled trips body).length = trips * body.length := by
  simp only [unrolled, List.length_flatMap, List.length_map, List.map_const', List.length_range,
    List.sum_replicate_nat]

namespace Workspace

/-! ## Bodies that are not run -/

/-- The blocks that a block refers to, in the order of its references. -/
def resolveAll (ws : Workspace) (origin : BlockId) :
    List BlockId → Except CompileError (List Block)
  | [] => .ok []
  | id :: rest => do
    let b ← ws.resolve origin id
    let bs ← ws.resolveAll origin rest
    pure (b :: bs)

/-- Check the pending blocks, the last one first, and all that can be reached from them.  `seen`
are the ids of the blocks that were checked. -/
def validateWithin (ws : Workspace) :
    (bound : Nat) → (pending : List Block) → (seen : List BlockId) → Except Failure Unit
  | 0, _, _ => .error .endless
  | _ + 1, [], _ => .ok ()
  | bound + 1, b :: pending, seen =>
    if seen.contains b.id then ws.validateWithin bound pending seen
    else do
      let _ ← b.kind
      let children ← ws.resolveAll b.id b.references
      ws.validateWithin bound (children.reverse ++ pending) (b.id :: seen)

/-- Check that all blocks that can be reached from `head` are of the catalog and that their
references have their blocks.  Every block is pending at most once for each reference to it. -/
def validate (ws : Workspace) (head : Block) : Except Failure Unit :=
  ws.validateWithin (ws.referenced.length + head.references.length + 2) [head] []

/-! ## Loops -/

/-- The steps of a loop block, given how the chain of its body is compiled. -/
def unroll (ws : Workspace) (limit : Nat) (body : Block → Traced Failure (List Step)) (b : Block)
    (count : Option Float) : Traced Failure (List Step) :=
  match b.statements.get? Kind.bodySlot with
  | none => do
    Traced.report (.loopWithoutBody b.id)
    pure []
  | some id => do
    let head ← checked (ws.resolve b.id id)
    let trips := tripCount count
    if Decimal.isZero trips then
      ws.validate head
      Traced.report (.loopNotRun b.id)
      pure []
    else
      let steps ← body head
      if steps.isEmpty then
        Traced.report (.loopBodyEmpty b.id trips)
        pure []
      else
        let turns := Decimal.wholePart trips
        if !trips.isFinite || decide (limit < turns * steps.length) then
          throw (.rejected (.stepLimitExceeded limit b.id))
        Traced.report (.loopUnrolled b.id turns steps.length (turns * steps.length))
        pure (unrolled turns steps)

/-- The number of turns of a loop block: what is attached, or the field, by the kind of loop. -/
def loopCount (ws : Workspace) (b : Block) : Loop → Except Failure (Option Float)
  | .byInput => ws.numberInput b "TIMES"
  | .byField => checked (b.numberField "TIMES")

/-! ## Chains -/

/-- What one block contributes to the chain it stands in, given how bodies are compiled.  A block
that has a value contributes nothing, and its value is not asked for. -/
def contribution (ws : Workspace) (opts : Options) (body : Block → Traced Failure (List Step))
    (b : Block) : Traced Failure (List Step) := do
  match ← checked b.kind with
  | .expression _ => do
    Traced.report (.strayValue b.id b.type)
    pure []
  | .action a => do
    let s ← a.step ws opts.hooks b
    pure [s]
  | .loop l => do
    let count ← ws.loopCount b l
    ws.unroll opts.maxSteps body b count

/-- Follow a chain from the block `b`, behind the events and steps of the blocks before it. -/
def walk (ws : Workspace) (limit : Nat) (part : Block → Traced Failure (List Step)) :
    (bound : Nat) → Array Event → Array Step → Block → Traced Failure (List Step)
  | 0, events, _, _ => ⟨events.toList, .error .endless⟩
  | bound + 1, events, steps, b =>
    let p := part b
    let events := events ++ p.events
    match p.outcome with
    | .error e => ⟨events.toList, .error e⟩
    | .ok more =>
      let steps := steps ++ more
      match checkLimit limit steps.size b.id with
      | .error e => ⟨events.toList, .error (.rejected e)⟩
      | .ok () =>
        match b.next with
        | none => ⟨events.toList, .ok steps.toList⟩
        | some id =>
          match ws.resolve b.id id with
          | .error e => ⟨events.toList, .error (.rejected e)⟩
          | .ok next => walk ws limit part bound events steps next

/-- How many blocks are followed along one chain. -/
def walkBound (ws : Workspace) (limit : Nat) : Nat := (ws.size + 1) * (limit + 2)

/-- The steps of the chain that begins with `head`, through at most `nest` bodies. -/
def chainWithin (ws : Workspace) (opts : Options) :
    (nest : Nat) → Block → Traced Failure (List Step)
  | 0, _ => throw .endless
  | nest + 1, head => do
    let steps ← ws.walk opts.maxSteps (ws.contribution opts (ws.chainWithin opts nest))
      (ws.walkBound opts.maxSteps) #[] #[] head
    Traced.report (.compiledChain head.id steps.length)
    pure steps

/-- How deep bodies may nest. -/
def nestBound (ws : Workspace) : Nat := ws.size + 1

/-- The steps of the chain that begins with `head`. -/
def chain (ws : Workspace) (opts : Options) (head : Block) : Traced Failure (List Step) :=
  ws.chainWithin opts ws.nestBound head

/-! ## Single blocks -/

end Workspace

/-- What a single block amounts to. -/
inductive Fragment where
  /-- An action block is a step. -/
  | step (s : Step)
  /-- A loop block is the steps of its turns. -/
  | steps (ss : List Step)
  /-- An expression block is a value. -/
  | value (v : Scalar)
  deriving Repr, DecidableEq

/-- What a block amounts to on its own, whatever comes next. -/
def Workspace.fragment (ws : Workspace) (opts : Options) (b : Block) : Traced Failure Fragment := do
  match ← checked b.kind with
  | .expression _ => do
    let v ← ws.value b
    pure (.value v)
  | .action a => do
    let s ← a.step ws opts.hooks b
    pure (.step s)
  | .loop l => do
    let count ← ws.loopCount b l
    let ss ← ws.unroll opts.maxSteps (ws.chain opts) b count
    pure (.steps ss)

end BlockSteps

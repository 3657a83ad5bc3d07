import BlockSteps.Block.Basic

/-!
# What is reported along the way

Loading and compiling report what they do as a list of events.  An event is data; its level, its
message and its fields are functions of it.  Nothing here says where the report goes.
-/

namespace BlockSteps

/-- How important a report is. -/
inductive Level where
  /-- Every detail. -/
  | trace
  /-- Of use to find an error in a program. -/
  | debug
  /-- Of use to everyone. -/
  | info
  /-- Something is probably not as intended. -/
  | warn
  /-- Something failed. -/
  | error
  deriving Repr, DecidableEq

/-- Something that loading or compiling reports. -/
inductive Event where
  /-- A workspace file is about to be read. -/
  | loadingWorkspace (path : String)
  /-- A workspace was read. -/
  | loadedWorkspace (blocks : Nat)
  /-- A workspace is about to be compiled. -/
  | compilingWorkspace (blocks : Nat) (chains : Nat)
  /-- A workspace was compiled. -/
  | compiledWorkspace (steps : Nat)
  /-- A chain was compiled. -/
  | compiledChain (head : BlockId) (steps : Nat)
  /-- A block that has a value stands where only steps count. -/
  | strayValue (block : BlockId) (type : String)
  /-- A loop has no body. -/
  | loopWithoutBody (block : BlockId)
  /-- A loop is not run at all. -/
  | loopNotRun (block : BlockId)
  /-- The body of a loop has no steps. -/
  | loopBodyEmpty (block : BlockId) (trips : Float)
  /-- A loop was unrolled. -/
  | loopUnrolled (block : BlockId) (trips : Nat) (bodySteps : Nat) (steps : Nat)
  deriving Repr, DecidableEq

namespace Event

/-- The level of an event. -/
def level : Event → Level
  | .loadingWorkspace _ => .info
  | .loadedWorkspace _ => .debug
  | .compilingWorkspace _ _ => .info
  | .compiledWorkspace _ => .info
  | .compiledChain _ _ => .debug
  | .strayValue _ _ => .warn
  | .loopWithoutBody _ => .debug
  | .loopNotRun _ => .debug
  | .loopBodyEmpty _ _ => .debug
  | .loopUnrolled _ _ _ _ => .debug

/-- The message of an event. -/
def message : Event → String
  | .loadingWorkspace _ => "Loading workspace"
  | .loadedWorkspace _ => "Loaded workspace"
  | .compilingWorkspace _ _ => "Compiling workspace"
  | .compiledWorkspace _ => "Compiled workspace"
  | .compiledChain _ _ => "Compiled chain"
  | .strayValue _ _ => "Value block in statement position contributes no steps"
  | .loopWithoutBody _ => "Repeat block has no body"
  | .loopNotRun _ => "Repeat block runs zero times"
  | .loopBodyEmpty _ _ => "Repeat body is empty"
  | .loopUnrolled _ _ _ _ => "Unrolled repeat block"

/-- A number of things as a field. -/
def countField (name : String) (n : Nat) : String × String :=
  (name, String.ofList (Decimal.natChars n))

/-- The fields of an event, by name. -/
def fields : Event → List (String × String)
  | .loadingWorkspace path => [("path", path)]
  | .loadedWorkspace blocks => [countField "blocks" blocks]
  | .compilingWorkspace blocks chains => [countField "blocks" blocks, countField "chains" chains]
  | .compiledWorkspace steps => [countField "steps" steps]
  | .compiledChain head steps => [("head", head), countField "steps" steps]
  | .strayValue block type => [("block_id", block), ("block_type", type)]
  | .loopWithoutBody block => [("block_id", block)]
  | .loopNotRun block => [("block_id", block)]
  | .loopBodyEmpty block trips => [("block_id", block), ("trips", Decimal.plain trips)]
  | .loopUnrolled block trips bodySteps steps =>
    [("block_id", block), countField "trips" trips, countField "body_steps" bodySteps,
      countField "steps" steps]

end Event

end BlockSteps

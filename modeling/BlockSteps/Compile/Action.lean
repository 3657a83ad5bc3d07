import BlockSteps.Compile.Value

/-!
# The steps of actions

Each action block becomes one step: a main function with its parameters, read from the slots of the
block with the defaults of the editor, and the hooks that the options bundle around that function.
-/

namespace BlockSteps

namespace Action

/-- The name of the step shown to people. -/
def stepName : Action → String
  | .setLaserPower => "Set Laser Power"
  | .waitTime => "Wait Time"
  | .acquireFrame => "Acquire Frame"
  | .moveStage => "Move Stage"

/-- The main function that the engine calls. -/
def mainFunc : Action → String
  | .setLaserPower => "set_laser_power"
  | .waitTime => "wait_time"
  | .acquireFrame => "acquire_frame"
  | .moveStage => "move_stage"

/-- The parameters of the main function, in the order in which they are read. -/
def params (ws : Workspace) (b : Block) : Action → Except Failure (List (String × Scalar))
  | .setLaserPower => do
    let power ← ws.numberParam b "POWER" 10
    let channel ← ws.textParam b "CHANNEL" "LED"
    pure [("power", .number power), ("channel", .text channel)]
  | .waitTime => do
    let seconds ← ws.numberParam b "SECONDS" 1
    pure [("seconds", .number seconds)]
  | .acquireFrame => do
    let channel ← ws.textParam b "CHANNEL" "Mono"
    pure [("channel", .text channel)]
  | .moveStage => do
    let x ← ws.numberParam b "X" 0
    let y ← ws.numberParam b "Y" 0
    let z ← ws.numberParam b "Z" 0
    pure [("x", .number x), ("y", .number y), ("z", .number z)]

/-- The step of a block without its parameters: its names and its hooks. -/
def bare (hooks : HookTable) (b : Block) (a : Action) : Step :=
  let s : Step := { id := b.id, stepName := a.stepName, mainFunc := a.mainFunc }
  match hooks.get? a.mainFunc with
  | some h => s.withHooks h
  | none => s

/-- The step that an action block becomes. -/
def step (ws : Workspace) (hooks : HookTable) (b : Block) (a : Action) : Except Failure Step := do
  let params ← a.params ws b
  pure ((a.bare hooks b).amendAll (params.map fun p => .param p.1 p.2))

end Action

end BlockSteps

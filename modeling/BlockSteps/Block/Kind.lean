/-!
# The catalog of block kinds

The editor names the kind of a block by a tag.  There are three categories, and the type says
which kinds belong to which: an **action** becomes one step, a **loop** becomes the steps of its
body repeated, and an **expression** becomes a value.  What handles only one category takes only
its kinds, so it has no case for the others.
-/

namespace BlockSteps

/-- The blocks that become one step. -/
inductive Action where
  /-- Set the power of a laser channel. -/
  | setLaserPower
  /-- Wait for some seconds. -/
  | waitTime
  /-- Take a picture in a channel. -/
  | acquireFrame
  /-- Move the stage by three coordinates. -/
  | moveStage
  deriving Repr, DecidableEq

/-- The blocks that repeat their body. -/
inductive Loop where
  /-- The number of repetitions is an attached value. -/
  | byInput
  /-- The number of repetitions is a field. -/
  | byField
  deriving Repr, DecidableEq

/-- The blocks that have a value. -/
inductive Expression where
  /-- A number literal. -/
  | number
  /-- A named constant. -/
  | constant
  /-- An operation on two numbers. -/
  | arithmetic
  /-- An operation on one number. -/
  | single
  /-- Rounding to a whole number. -/
  | round
  /-- A text literal. -/
  | text
  deriving Repr, DecidableEq

/-- The kinds of blocks. -/
inductive Kind where
  /-- A block that becomes one step. -/
  | action (a : Action)
  /-- A block that repeats its body. -/
  | loop (l : Loop)
  /-- A block that has a value. -/
  | expression (e : Expression)
  deriving Repr, DecidableEq

/-- The categories of kinds. -/
inductive Category where
  /-- Becomes one step. -/
  | statement
  /-- Repeats its body. -/
  | control
  /-- Has a value. -/
  | value
  deriving Repr, DecidableEq

namespace Kind

/-- The category of a kind. -/
def category : Kind → Category
  | .action _ => .statement
  | .loop _ => .control
  | .expression _ => .value

/-- The tag by which the editor names the kind. -/
def tag : Kind → String
  | .action .setLaserPower => "set_laser_power_block"
  | .action .waitTime => "wait_time_block"
  | .action .acquireFrame => "acquire_frame_block"
  | .action .moveStage => "move_stage_block"
  | .loop .byInput => "controls_repeat_ext"
  | .loop .byField => "controls_repeat"
  | .expression .number => "math_number"
  | .expression .constant => "math_constant"
  | .expression .arithmetic => "math_arithmetic"
  | .expression .single => "math_single"
  | .expression .round => "math_round"
  | .expression .text => "text"

/-- Every kind once, in catalog order. -/
def all : List Kind :=
  [.action .setLaserPower, .action .waitTime, .action .acquireFrame, .action .moveStage,
    .loop .byInput, .loop .byField,
    .expression .number, .expression .constant, .expression .arithmetic, .expression .single,
    .expression .round, .expression .text]

/-- The kind that a tag names, if it names one. -/
def ofTag? (tag : String) : Option Kind := all.find? fun k => k.tag == tag

/-- The slot in which a loop holds its body. -/
def bodySlot : String := "DO"

/-- The input slots that hold chains of blocks and not values. -/
def statementSlots : Kind → List String
  | .loop _ => [bodySlot]
  | _ => []

theorem mem_all (k : Kind) : k ∈ all := by
  rcases k with a | l | e
  · cases a <;> simp [all]
  · cases l <;> simp [all]
  · cases e <;> simp [all]

/-- A tag names the kind whose tag it is, and no other. -/
theorem ofTag?_eq_some_iff {tag : String} {k : Kind} : ofTag? tag = some k ↔ k.tag = tag := by
  constructor
  · intro h
    simpa using List.find?_some h
  · intro h
    subst h
    have key : ∀ a ∈ all, ofTag? a.tag = some a := by decide
    exact key k (mem_all k)

/-- A tag that names no kind is the tag of none. -/
theorem ofTag?_eq_none_iff {tag : String} : ofTag? tag = none ↔ ∀ k : Kind, k.tag ≠ tag := by
  simp only [Option.eq_none_iff_forall_ne_some, ne_eq, ofTag?_eq_some_iff]

end Kind

end BlockSteps

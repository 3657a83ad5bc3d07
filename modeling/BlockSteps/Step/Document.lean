import BlockSteps.Step.Basic

/-!
# Step documents

A document is the list of steps that the execution engine runs, in order.
-/

namespace BlockSteps

/-- A list of steps to run. -/
structure Document where
  /-- The steps, in the order in which they run. -/
  steps : List Step := []
  deriving Repr, DecidableEq

namespace Document

/-- The document of a program's steps, their ids written by the policy. -/
def assemble (policy : IdPolicy) (steps : List Step) : Document :=
  ⟨steps.map (Step.rendered policy)⟩

/-- The number of steps. -/
def length (d : Document) : Nat := d.steps.length

/-- Whether there are no steps. -/
def isEmpty (d : Document) : Bool := d.steps.isEmpty

/-- The document as JSON. -/
def json (d : Document) : Json := .object [("steps", .array (d.steps.map Step.json))]

/-- The text of a document in a layout. -/
def write (layout : Json.Layout) (d : Document) : String := d.json.write layout

/-- How a document is read. -/
def record [Json.Rounding] : Json.Record Document where
  name := "Document"
  fields := [.of "steps" true (Json.readList Step.record.read) fun v _ => ⟨v⟩]
  blank := {}

/-- Read a document. -/
def ofText [Json.Rounding] (text : String) : Except Json.ReadError Document :=
  Json.readFrom record.read text

@[simp] theorem length_assemble (policy : IdPolicy) (steps : List Step) :
    (assemble policy steps).length = steps.length := by
  simp [assemble, length]

end Document

end BlockSteps

import BlockSteps.Scalar

/-!
# Hooks

Operations that are bundled around a main operation: functions to call before and after it, with
the parameters of each group.  A hook table says which bundle goes with which main function.
-/

namespace BlockSteps

/-- What is called around a main operation. -/
structure Hooks where
  /-- The functions called before, in order. -/
  pre : List String := []
  /-- The parameters of those. -/
  preParams : Params := {}
  /-- The functions called after, in order. -/
  post : List String := []
  /-- The parameters of those. -/
  postParams : Params := {}
  deriving Repr, DecidableEq

/-- The bundle that goes with each main function, by its name. -/
abbrev HookTable := Dict Hooks

namespace Hooks

/-- How deep a parameter of a hook table may still nest, below the table and its bundles. -/
def paramRoom : Json.Room := some (Json.depthLimit - 4)

/-- How a bundle is read: whatever is left out is empty. -/
def record [Json.Rounding] : Json.Record Hooks where
  name := "StepHooks"
  fields := [
    .of "pre" false (Json.readList Json.readText) fun v h => { h with pre := v },
    .of "pre_params" false (Json.readDict (Scalar.read paramRoom))
      fun v h => { h with preParams := v },
    .of "post" false (Json.readList Json.readText) fun v h => { h with post := v },
    .of "post_params" false (Json.readDict (Scalar.read paramRoom))
      fun v h => { h with postParams := v }]
  blank := {}

/-- A bundle as JSON. -/
def json (h : Hooks) : Json :=
  .object [("pre", .texts h.pre), ("pre_params", Scalar.dictJson h.preParams),
    ("post", .texts h.post), ("post_params", Scalar.dictJson h.postParams)]

/-- A hook table as JSON. -/
def tableJson (table : HookTable) : Json := .object (table.map json).entries

end Hooks

end BlockSteps

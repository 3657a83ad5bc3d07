import BlockSteps.Step.Hooks

/-!
# Steps

A step is one call of a main function of the execution engine, with what is called around it.  A
step that comes out of loops carries its **iteration path**: for each loop around it, the outermost
first, the number of the turn, counted from zero.  The path is never written as such.  It can be
written into the id, which is what `IdPolicy` decides.
-/

namespace BlockSteps

/-- How a step that was copied by loops is identified. -/
inductive IdPolicy where
  /-- Every copy keeps the id of its block. -/
  | reuse
  /-- The iteration path is appended to the id. -/
  | indexed
  deriving Repr, DecidableEq

instance : Inhabited IdPolicy := ⟨.reuse⟩

/-- One call of a main function, with what is called around it. -/
structure Step where
  /-- The id of the block that the step comes from. -/
  id : String
  /-- The name shown to people. -/
  stepName : String
  /-- The main function. -/
  mainFunc : String
  /-- The parameters of the main function. -/
  mainParams : Params := {}
  /-- The functions called before, in order. -/
  preFuncs : List String := []
  /-- The parameters of those. -/
  preParams : Params := {}
  /-- The functions called after, in order. -/
  postFuncs : List String := []
  /-- The parameters of those. -/
  postParams : Params := {}
  /-- The number of the turn in each loop around the step, outermost first. -/
  iteration : List Nat := []
  deriving Repr, DecidableEq

namespace Step

/-! ## Building a step

A step begins bare and is amended.  Parameters of the main function and hooks do not touch each
other: the first change `mainParams` only, the second only the four other collections. -/

/-- One change to a step that is being built. -/
inductive Amendment where
  /-- Give a parameter of the main function a value. -/
  | param (name : String) (value : Scalar)
  /-- Add a bundle of hooks: its functions behind those already there, its parameters over them. -/
  | hooks (h : Hooks)
  deriving Repr, DecidableEq

/-- Give a parameter of the main function a value. -/
def withParam (s : Step) (name : String) (value : Scalar) : Step :=
  { s with mainParams := s.mainParams.insert name value }

/-- Add a bundle of hooks: its functions behind those already there, its parameters over them. -/
def withHooks (s : Step) (h : Hooks) : Step :=
  { s with
    preFuncs := s.preFuncs ++ h.pre
    preParams := s.preParams.override h.preParams
    postFuncs := s.postFuncs ++ h.post
    postParams := s.postParams.override h.postParams }

/-- Make one change. -/
def amend (s : Step) : Amendment → Step
  | .param name value => s.withParam name value
  | .hooks h => s.withHooks h

/-- Make several changes, in order. -/
def amendAll (s : Step) (changes : List Amendment) : Step := changes.foldl amend s

/-! ## Loops and ids -/

/-- The copy of a step in the given turn of a loop around it. -/
def inTurn (s : Step) (turn : Nat) : Step := { s with iteration := turn :: s.iteration }

/-- Numbers in decimal digits with points between them. -/
def dotted : List Nat → String
  | [] => ""
  | [n] => String.ofList (Decimal.natChars n)
  | n :: rest => String.ofList (Decimal.natChars n) ++ "." ++ dotted rest

/-- The id under which the step is written. -/
def renderedId (policy : IdPolicy) (s : Step) : String :=
  match policy with
  | .reuse => s.id
  | .indexed => if s.iteration.isEmpty then s.id else s.id ++ "#" ++ dotted s.iteration

/-- The step with its id as it is written. -/
def rendered (policy : IdPolicy) (s : Step) : Step := { s with id := s.renderedId policy }

@[simp] theorem amendAll_nil (s : Step) : s.amendAll [] = s := rfl

@[simp] theorem amendAll_cons (s : Step) (c : Amendment) (rest : List Amendment) :
    s.amendAll (c :: rest) = (s.amend c).amendAll rest := rfl

@[simp] theorem renderedId_reuse (s : Step) : s.renderedId .reuse = s.id := rfl

theorem renderedId_of_nil {s : Step} (policy : IdPolicy) (h : s.iteration = []) :
    s.renderedId policy = s.id := by
  cases policy <;> simp [renderedId, h]

/-! ## Steps in documents -/

/-- A step as it stands in a document. -/
def json (s : Step) : Json :=
  .object [("id", .text s.id), ("stepName", .text s.stepName), ("mainFuncName", .text s.mainFunc),
    ("mainParams", Scalar.dictJson s.mainParams), ("preFuncs", .texts s.preFuncs),
    ("preParams", Scalar.dictJson s.preParams), ("postFuncs", .texts s.postFuncs),
    ("postParams", Scalar.dictJson s.postParams)]

/-- How deep a parameter of a step in a document may still nest. -/
def paramRoom : Json.Room := some (Json.depthLimit - 4)

/-- How a step of a document is read: nothing may be left out. -/
def record [Json.Rounding] : Json.Record Step where
  name := "Step"
  fields := [
    .of "id" true Json.readText fun v s => { s with id := v },
    .of "stepName" true Json.readText fun v s => { s with stepName := v },
    .of "mainFuncName" true Json.readText fun v s => { s with mainFunc := v },
    .of "mainParams" true (Json.readDict (Scalar.read paramRoom))
      fun v s => { s with mainParams := v },
    .of "preFuncs" true (Json.readList Json.readText) fun v s => { s with preFuncs := v },
    .of "preParams" true (Json.readDict (Scalar.read paramRoom))
      fun v s => { s with preParams := v },
    .of "postFuncs" true (Json.readList Json.readText) fun v s => { s with postFuncs := v },
    .of "postParams" true (Json.readDict (Scalar.read paramRoom))
      fun v s => { s with postParams := v }]
  blank := { id := "", stepName := "", mainFunc := "" }

end Step

end BlockSteps

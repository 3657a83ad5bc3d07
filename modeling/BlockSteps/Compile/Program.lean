import BlockSteps.Compile.Chain
import BlockSteps.Workspace.Loading

/-!
# Programs

A program is a workspace together with the heads of its chains, in order.  Its document is the
steps of the chains, one chain behind the other, with the ids written by the policy.  It is refused
as soon as the chains so far have more steps than are allowed.

Usually the heads are the top blocks of the workspace (`Workspace.compile`).  They need not be:
`compileFrom` takes any ids, and a head that is no block is refused like any other reference.
-/

namespace BlockSteps

namespace Workspace

/-- The steps of the chains with the given heads, behind `done` steps of other chains. -/
def chains (ws : Workspace) (opts : Options) :
    (done : Nat) → List BlockId → Traced Failure (List Step)
  | _, [] => pure []
  | done, id :: rest => do
    let head ← checked (ws.resolve "workspace" id)
    let steps ← ws.chain opts head
    let done := done + steps.length
    checked (checkLimit opts.maxSteps done id)
    let more ← ws.chains opts done rest
    pure (steps ++ more)

/-- The document of the chains with the given heads, with the report. -/
def traceFrom (ws : Workspace) (heads : List BlockId) (opts : Options) :
    Traced Failure Document := do
  Traced.report (.compilingWorkspace ws.size heads.length)
  let steps ← ws.chains opts 0 heads
  let document := Document.assemble opts.ids steps
  Traced.report (.compiledWorkspace document.length)
  pure document

/-- The document of a workspace, with the report. -/
def trace (ws : Workspace) (opts : Options) : Traced Failure Document :=
  ws.traceFrom ws.topIds opts

/-- The document of the chains with the given heads. -/
def compileFrom (ws : Workspace) (heads : List BlockId) (opts : Options) :
    Except Failure Document := (ws.traceFrom heads opts).outcome

/-- The document of a workspace. -/
def compile (ws : Workspace) (opts : Options) : Except Failure Document :=
  ws.compileFrom ws.topIds opts

end Workspace

/-- Why a text gave no document. -/
inductive ProgramError where
  /-- The text could not be loaded. -/
  | load (e : LoadError)
  /-- The workspace could not be compiled. -/
  | compile (f : Failure)

/-- The document of a text, with the report of loading and compiling. -/
def traceText (order : TopOrder) (opts : Options) (text : String) :
    Traced ProgramError Document := do
  let ws ← (Workspace.load order text).mapError .load
  (ws.trace opts).mapError .compile

end BlockSteps

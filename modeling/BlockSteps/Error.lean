import BlockSteps.Block.Basic
import BlockSteps.Json.Reader

/-!
# What can be wrong with a workspace

`CompileError` lists the causes for which a workspace is refused, each with the block at which it
was found.  The wording is in one place, `CompileError.message`, and no decision of the compiler
depends on it.
-/

namespace BlockSteps

/-- A cause for which a workspace is refused. -/
inductive CompileError where
  /-- The type of a block is no tag of the catalog. -/
  | unknownBlockType (type : String) (block : BlockId)
  /-- A literal does not spell what is wanted in its place. -/
  | malformedLiteral (block : BlockId) (field : String) (value : String)
  /-- A value is not a number or infinite. -/
  | nonFiniteValue (block : BlockId) (slot : String)
  /-- A block refers to an id that no block has. -/
  | danglingReference (origin : BlockId) (target : BlockId)
  /-- A block without a value is attached to a value slot. -/
  | expectedValueBlock (block : BlockId) (type : String)
  /-- Two blocks have one id. -/
  | duplicateBlockId (block : BlockId)
  /-- The program has more steps than are allowed. -/
  | stepLimitExceeded (limit : Nat) (block : BlockId)
  deriving Repr, DecidableEq

namespace CompileError

/-- The block at which the cause was found. -/
def blockId : CompileError → BlockId
  | .unknownBlockType _ block => block
  | .malformedLiteral block _ _ => block
  | .nonFiniteValue block _ => block
  | .danglingReference origin _ => origin
  | .expectedValueBlock block _ => block
  | .duplicateBlockId block => block
  | .stepLimitExceeded _ block => block

/-- The cause in words. -/
def message : CompileError → String
  | .unknownBlockType type block => "Unknown block type '" ++ type ++ "' (block " ++ block ++ ")"
  | .malformedLiteral block field value =>
    "Malformed literal in field " ++ field ++ " of block " ++ block ++ ": " ++ Text.quoted value
  | .nonFiniteValue block slot =>
    "Block " ++ block ++ " produced a non-finite value for " ++ slot
  | .danglingReference origin target =>
    "Block " ++ origin ++ " references missing block " ++ target
  | .expectedValueBlock block type =>
    "Block " ++ block ++ " ('" ++ type ++ "') is a statement block plugged into a value slot"
  | .duplicateBlockId block => "Duplicate block id: " ++ block
  | .stepLimitExceeded limit block =>
    "Step limit of " ++ String.ofList (Decimal.natChars limit) ++
      " exceeded while compiling block " ++ block

end CompileError

/-- The kind of a block. -/
def Block.kind (b : Block) : Except CompileError Kind :=
  match Kind.ofTag? b.type with
  | some k => .ok k
  | none => .error (.unknownBlockType b.type b.id)

/-- Why a workspace text could not be loaded. -/
inductive LoadError where
  /-- There is no file, or its bytes are no text. -/
  | unreadable
  /-- The text is not a saved workspace. -/
  | unread (e : Json.ReadError)
  /-- The saved blocks are no valid workspace. -/
  | invalid (e : CompileError)

end BlockSteps

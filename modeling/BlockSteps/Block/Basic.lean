import BlockSteps.Block.Field
import BlockSteps.Block.Kind

/-!
# Blocks

A block of the workspace graph.  It does not hold other blocks; it refers to them by their ids,
from its value slots, from its statement slots and by the link to the block that comes next.
Nothing here says that such an id is the id of any block.
-/

namespace BlockSteps

/-- The id that the editor gave to a block: any text. -/
abbrev BlockId := String

/-- A block and its references to others. -/
structure Block where
  /-- The id of the block. -/
  id : BlockId
  /-- The tag of its kind. -/
  type : String
  /-- The literal fields. -/
  fields : Dict FieldValue := {}
  /-- The block attached to each value slot. -/
  values : Dict BlockId := {}
  /-- The first block of the chain in each statement slot. -/
  statements : Dict BlockId := {}
  /-- The block that comes next. -/
  next : Option BlockId := none
  deriving Repr, DecidableEq

/-- The ids a block refers to: value slots, statement slots, then the next block. -/
def Block.references (b : Block) : List BlockId :=
  b.values.values ++ b.statements.values ++ b.next.toList

end BlockSteps

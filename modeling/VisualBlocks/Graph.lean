import VisualBlocks.Table

/-!
# Block graphs

A block graph is what text is generated from: nodes under their identifiers, linked through named
inputs and through the chain from each block to the next one, and the list of the blocks that hang
on no other.  Nothing is asked of the links.  They may lead to blocks that do not exist, and they
may run in circles; the graph of a workspace is a forest, a graph given by other means need not
be one.
-/

set_option autoImplicit false

namespace VisualBlocks

/-- What a block holds: its type, the texts of its fields, the blocks in its inputs, the texts that
describe its shape, and the block that follows it. -/
structure Node where
  type : String
  fields : Table String
  inputs : Table String
  mutation : Table String
  next : Option String
deriving Repr, DecidableEq, Inhabited

/-- A node of a type that holds nothing. -/
def Node.bare (type : String) : Node := ⟨type, .empty, .empty, .empty, none⟩

/-- Nodes under their identifiers, and the identifiers of the top-level blocks in reading order. -/
structure Graph where
  top : List String
  nodes : List (String × Node)
deriving Repr, DecidableEq, Inhabited

/-- The node under an identifier. -/
def Graph.node? (g : Graph) (id : String) : Option Node := g.nodes.lookup id

end VisualBlocks

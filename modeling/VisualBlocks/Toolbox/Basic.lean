import VisualBlocks.Schema.Registry

/-!
# Toolboxes

A toolbox is what an editor offers to take blocks from: entries in categories.  An entry names a
block type and the shadow blocks that fill its inputs to begin with.
-/

set_option autoImplicit false

namespace VisualBlocks

/-- A shadow block in an input of an entry, with the text of one field. -/
structure ShadowPreset where
  input : String
  type : String
  field : String
  value : String
deriving Repr, DecidableEq, Inhabited

/-- A block type on offer. -/
structure ToolboxEntry where
  type : String
  shadows : List ShadowPreset
deriving Repr, DecidableEq, Inhabited

/-- Entries that are shown together. -/
structure ToolboxCategory where
  name : String
  colour : String
  entries : List ToolboxEntry
deriving Repr, DecidableEq, Inhabited

/-- The categories in the order in which they are shown. -/
structure Toolbox where
  categories : List ToolboxCategory
deriving Repr, DecidableEq, Inhabited

namespace Toolbox

/-- The entries of all categories. -/
def entries (t : Toolbox) : List ToolboxEntry := t.categories.flatMap (·.entries)

/-- The block types on offer, in order. -/
def palette (t : Toolbox) : List String := t.entries.map (·.type)

/-- The block types that entries and their shadows mention, in order. -/
def mentioned (t : Toolbox) : List String :=
  t.entries.flatMap fun e => e.type :: e.shadows.map (·.type)

/-- The mentioned types that are not declared, each once, in order of first mention. -/
def unknownTypes (t : Toolbox) (r : Registry) : List String :=
  (t.mentioned.filter fun name => !r.contains name).eraseDups

end Toolbox
end VisualBlocks

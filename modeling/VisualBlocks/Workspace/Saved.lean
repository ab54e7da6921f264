import VisualBlocks.Workspace.Edit

/-!
# Saved workspaces

Both file formats say the same: which blocks there are, what stands in their fields, and which
block hangs on which.  A `Saved` block is that content, in the order in which a file gives it and
with its faults in place, so that both formats are loaded in one way (`Saved.load`).

Blocks are created from the outside to the inside.  A block that comes without an identifier gets
one at the moment it is created.
-/

set_option autoImplicit false

namespace VisualBlocks
namespace Workspace

/-- Why a file is refused. -/
inductive LoadError where
  | notJson
  | notXml
  | notAnObject
  | noBlockArray
  | typeMissing
  | attributeMissing (element name : String)
  | edit (e : EditError)
deriving Repr, DecidableEq, Inhabited

/-- The wording of a refusal. -/
def LoadError.message : LoadError → String
  | .notJson => "Invalid workspace JSON."
  | .notXml => "Invalid workspace XML"
  | .notAnObject => "Invalid workspace JSON: expected an object."
  | .noBlockArray => "Invalid workspace JSON: 'blocks' must hold a 'blocks' array."
  | .typeMissing => "Block missing 'type'."
  | .attributeMissing element name =>
    "<" ++ element ++ "> element missing '" ++ name ++ "' attribute."
  | .edit e => e.message

/-- The outcome of an operation on the workspace, as an outcome of loading. -/
def edited {α : Type} : Except EditError α → Except LoadError α
  | .ok a => .ok a
  | .error e => .error (.edit e)

mutual

/-- A block as a file gives it. -/
inductive Saved where
  | block (type : String) (id : Option String) (shadow : Bool) (parts : List Part)
  | fault (e : LoadError)

/-- What a file says about a block. -/
inductive Part where
  | field (name text : String)
  | mutation (key text : String)
  | input (name : String) (child : Saved)
  | next (child : Saved)
  | fault (e : LoadError)

end

/-- A block that hangs on no other, and its place. -/
structure Root where
  block : Saved
  x : Int
  y : Int

mutual

/-- Adds a block with all that hangs on it, and gives its identifier. -/
def Saved.load (w : Workspace) : Saved → Except LoadError (String × Workspace)
  | .fault e => .error e
  | .block type id shadow parts => do
    let id := id.getD w.freshId
    let w ← edited (w.add id type)
    let w := w.modify id fun b => { b with shadow }
    return (id, ← loadParts w id parts)

/-- Adds to a block, one after the other, what a file says about it. -/
def loadParts (w : Workspace) (id : String) : List Part → Except LoadError Workspace
  | [] => .ok w
  | p :: rest => do
    let w ← p.load w id
    loadParts w id rest

/-- Adds to a block one thing that a file says about it. -/
def Part.load (w : Workspace) (id : String) : Part → Except LoadError Workspace
  | .field name text => edited (w.setField id name text)
  | .mutation key text => edited (w.setMutation id key text)
  | .input name child => do
    let (child, w) ← child.load w
    edited (w.connectInput id name child)
  | .next child => do
    let (child, w) ← child.load w
    edited (w.connectNext id child)
  | .fault e => .error e

end

/-- Adds a top-level block at its place. -/
def Root.load (w : Workspace) (r : Root) : Except LoadError Workspace := do
  let (id, w) ← r.block.load w
  edited (w.setPosition id r.x r.y)

/-- The workspace of the given top-level blocks, which are added one after the other. -/
def ofRoots (roots : List Root) : Except LoadError Workspace := roots.foldlM Root.load empty

end Workspace
end VisualBlocks

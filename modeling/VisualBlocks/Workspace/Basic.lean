import VisualBlocks.Graph
import VisualBlocks.Text.Candidate

/-!
# Workspaces

A workspace owns blocks.  A block is a node with an identifier, a place on the canvas, a mark
whether it is a shadow, and a link to the block it hangs on: the one that precedes it in a chain,
or the one whose input it fills.

* `Workspace.blocks` lists the blocks in the order in which they were created.
* `Workspace.top` lists the blocks without a parent in reading order: from top to bottom, then from
  left to right, then in order of creation.
* `Workspace.graph` is the graph that text is generated from.
-/

set_option autoImplicit false

namespace VisualBlocks

/-- How a block hangs on its parent: below it in a chain, or in one of its inputs. -/
inductive Link where
  | next
  | input
deriving Repr, DecidableEq, Inhabited

/-- The block another block hangs on, and how. -/
structure Parent where
  id : String
  link : Link
deriving Repr, DecidableEq, Inhabited

/-- A block of a workspace. -/
structure Block extends Node where
  id : String
  x : Int
  y : Int
  shadow : Bool
  parent : Option Parent
deriving Repr, DecidableEq, Inhabited

/-- A fresh block of a type: at the origin, without content and without parent. -/
def Block.fresh (id type : String) : Block := ⟨.bare type, id, 0, 0, false, none⟩

/-- The blocks that hang directly on a block. -/
def Block.below (b : Block) : List String := b.inputs.values ++ b.next.toList

/-- The block before this one in its chain. -/
def Block.previous (b : Block) : Option String :=
  match b.parent with
  | some ⟨id, .next⟩ => some id
  | _ => none

/-- Does `a` come before `b` in reading order, or at the same place? -/
def Block.readsBefore (a b : Block) : Bool := a.y < b.y || (a.y == b.y && a.x ≤ b.x)

/-- Blocks in the order of their creation. -/
structure Workspace where
  blocks : List Block
deriving Repr, DecidableEq, Inhabited

namespace Workspace

/-- The workspace without blocks. -/
def empty : Workspace := ⟨[]⟩

/-- The block with an identifier. -/
def get? (w : Workspace) (id : String) : Option Block := w.blocks.find? fun b => b.id == id

/-- Is there a block with the identifier? -/
def contains (w : Workspace) (id : String) : Bool := (w.get? id).isSome

/-- The identifiers in order of creation. -/
def ids (w : Workspace) : List String := w.blocks.map (·.id)

/-- The identifiers of the blocks without a parent, in reading order.  Sorting is stable, so blocks
at one place stay in order of creation. -/
def top (w : Workspace) : List String :=
  ((w.blocks.filter fun b => b.parent.isNone).mergeSort Block.readsBefore).map (·.id)

/-- The graph of the workspace. -/
def graph (w : Workspace) : Graph := ⟨w.top, w.blocks.map fun b => (b.id, b.toNode)⟩

/-- A block, the block it hangs on, the block that one hangs on, and so on; as many as there may be
without a block occurring twice. -/
def ascent (w : Workspace) (id : String) : List String := climb w.blocks.length id
where
  /-- At most `fuel` blocks on the way up from a block. -/
  climb : Nat → String → List String
    | 0, _ => []
    | fuel + 1, id => id :: (match (w.get? id).bind (·.parent) with
      | none => []
      | some p => climb fuel p.id)

/-- An identifier that no block has: `b` and a number, which starts above the number of blocks. -/
def freshId (w : Workspace) : String :=
  Text.free w.ids (fun n => "b" ++ toString n) (w.blocks.length + 1)

end Workspace
end VisualBlocks

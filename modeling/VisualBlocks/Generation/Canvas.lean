import VisualBlocks.Generation.Script
import VisualBlocks.Sandbox.Capabilities

/-!
# Canvas blocks as script

A drawing block becomes a call of the function by which a script draws in the sandbox.
-/

set_option autoImplicit false

namespace VisualBlocks
namespace Generation
namespace Canvas

/-- The call for a circle with its centre and its radius. -/
def circle (s : Site) : Emission String := do
  let args ← ["X", "Y", "RADIUS"].mapM fun socket => s.value socket .none
  return Sandbox.drawCircle ++ "(" ++ String.intercalate ", " args ++ ");"

/-- The rules for the canvas blocks. -/
def rules : List (String × Rule) := [("draw_circle", .statement circle)]

/-- A generator that knows the canvas blocks too. -/
def extend (g : Generator) : Generator := g.extend "canvas" rules

end Canvas
end Generation
end VisualBlocks

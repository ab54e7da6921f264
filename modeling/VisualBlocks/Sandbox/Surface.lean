import VisualBlocks.Number.Layout
import VisualBlocks.Script.Value
import VisualBlocks.Xml.Writer

/-!
# The drawing surface

What a run has drawn: circles, in the order in which they were drawn, each with the fill that was
set at the time.  A surface can be written as a vector drawing.
-/

set_option autoImplicit false

namespace VisualBlocks
namespace Sandbox

/-- A filled circle. -/
structure Circle where
  x : Float
  y : Float
  radius : Float
  fill : String
deriving Repr, DecidableEq, Inhabited

/-- A surface of a size, with the fill of the next circle. -/
structure Surface where
  width : Nat
  height : Nat
  fill : String
  circles : Array Circle
deriving Repr, DecidableEq, Inhabited

namespace Surface

/-- The fill of a new surface. -/
def defaultFill : String := "#4c97ff"

/-- A surface on which nothing has been drawn. -/
def blank (width height : Nat) : Surface := ⟨width, height, defaultFill, #[]⟩

/-- Has nothing been drawn? -/
def isBlank (s : Surface) : Bool := s.circles.isEmpty

/-- Drops what has been drawn and keeps the fill. -/
def clear (s : Surface) : Surface := { s with circles := #[] }

/-- Draws a circle.  A negative radius counts as zero. -/
def fillCircle (s : Surface) (x y radius : Float) : Surface :=
  { s with circles := s.circles.push ⟨x, y, if radius > 0 then radius else 0, s.fill⟩ }

/-- A coordinate in a drawing; what is not finite is zero there. -/
def coordinate (x : Float) : String := if x.isFinite then Number.literal x else "0"

/-- The element of a circle. -/
def circleNode (c : Circle) : Xml.Node :=
  Xml.node "circle"
    [("cx", coordinate c.x), ("cy", coordinate c.y), ("r", coordinate c.radius),
      ("fill", c.fill)] []

/-- The surface as a vector drawing. -/
def toSvg (s : Surface) : String :=
  let width := toString s.width
  let height := toString s.height
  (Xml.node "svg"
    [("xmlns", "http://www.w3.org/2000/svg"), ("width", width), ("height", height),
     ("viewBox", "0 0 " ++ width ++ " " ++ height)]
    (s.circles.toList.map circleNode)).render

end Surface
end Sandbox
end VisualBlocks

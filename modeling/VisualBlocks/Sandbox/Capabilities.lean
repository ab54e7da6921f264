import VisualBlocks.Sandbox.Surface
import VisualBlocks.Script.Machine

/-!
# What a sandboxed script may do

A script in the sandbox reaches its surroundings through three functions only: it can draw a circle
and it can put out a line in two ways.  `capabilities` is the host that offers them.
-/

set_option autoImplicit false

namespace VisualBlocks
namespace Sandbox

open Script (Value Host)

/-- The function that draws a circle. -/
def drawCircle : String := "drawCircle"

/-- The functions that put out a line. -/
def outputNames : List String := ["window.alert", "console.log"]

/-- All functions a sandboxed script may call, apart from the built-in ones. -/
def capabilityNames : List String := drawCircle :: outputNames

/-- What a run leaves behind: drawings, and lines of text, the earliest first. -/
structure Effects where
  surface : Surface
  output : Array String
deriving Repr, DecidableEq, Inhabited

/-- The effects of a run that has not begun. -/
def Effects.clear (e : Effects) : Effects := ⟨e.surface.clear, #[]⟩

/-- Draws a circle if there are three finite arguments, and nothing otherwise. -/
def Effects.draw (e : Effects) (args : List Value) : Effects :=
  let arg (i : Nat) : Float := (args[i]?.map Value.toNumber).getD Script.notANumber
  if (arg 0).isFinite && (arg 1).isFinite && (arg 2).isFinite then
    { e with surface := e.surface.fillCircle (arg 0) (arg 1) (arg 2) }
  else e

/-- Puts out a line that shows the arguments. -/
def Effects.print (e : Effects) (args : List Value) : Effects :=
  { e with output := e.output.push (" ".intercalate (args.map Value.display)) }

/-- The host of the sandbox. -/
def capabilities : Host Effects where
  call e name args :=
    if name = drawCircle then (some (.ok .undefined), e.draw args)
    else if outputNames.contains name then (some (.ok .undefined), e.print args)
    else (none, e)

end Sandbox
end VisualBlocks

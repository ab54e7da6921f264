import VisualBlocks.CommandLine.Run

/-!
# The program

The outermost layer: the real world for the command line, and `main`.
-/

set_option autoImplicit false

namespace VisualBlocks
namespace CommandLine

/-- What an action gives, or nothing if it fails. -/
def attempt {α : Type} (action : IO α) : IO (Option α) := do
  try return some (← action) catch _ => return none

/-- The world outside the program. -/
def outside : World IO where
  locate path := do
    match ← attempt (IO.FS.realPath path) with
    | none => return none
    | some full =>
      if (← full.pathExists) && !(← full.isDir) then return some full.toString else return none
  read path := attempt (IO.FS.readFile path)
  write path text := do return (← attempt (IO.FS.writeFile path text)).isSome
  print text := IO.print text
  tell line := IO.eprintln line
  wait ms := IO.sleep ms.toUInt32

/-- Runs the program with its arguments, and gives its exit code. -/
def start (args : List String) : IO UInt32 := do
  match Arguments.read args with
  | .error .helpRequested =>
    IO.print usage
    return 0
  | .error e =>
    IO.eprintln ("error: " ++ e.message ++ "\n\n" ++ usage)
    return 2
  | .ok a =>
    match ← run outside a with
    | .ok () => return 0
    | .error e =>
      IO.eprintln ("Error: " ++ e.message)
      return 1

end CommandLine
end VisualBlocks

/-- The entry of the program. -/
def main (args : List String) : IO UInt32 := VisualBlocks.CommandLine.start args

import VisualBlocks.Generation.Language
import VisualBlocks.Text.Candidate

/-!
# The names of a pass

Generation goes through a graph once.  On its way it hands out names: a variable keeps the name it
got first, and different variables have different names even if they are spelt alike in the
language.  A counter gets a name that neither a variable nor another counter has at that moment.
-/

set_option autoImplicit false

namespace VisualBlocks
namespace Generation

/-- What a pass has done so far. -/
structure Pass where
  /-- The variables in order of first use: the raw name and the name in the program. -/
  known : List (String × String)
  /-- The names given to counters. -/
  counters : List String
  /-- The blocks that a chain has reached. -/
  visited : List String
deriving Repr, DecidableEq, Inhabited

namespace Pass

/-- The pass at its beginning. -/
def start : Pass := ⟨[], [], []⟩

/-- The names of the variables in order of first use. -/
def names (p : Pass) : List String := p.known.map (·.2)

/-- The name of a variable, new or known. -/
def variableName (p : Pass) (l : Language) (raw : String) : String × Pass :=
  match p.known.lookup raw with
  | some name => (name, p)
  | none =>
    let name := Text.free p.names (Text.numbered (safeIdentifier l.reserved raw)) 1
    (name, { p with known := p.known ++ [(raw, name)] })

/-- A name for a counter. -/
def freshName (p : Pass) (l : Language) (base : String) : String × Pass :=
  let taken := p.counters ++ p.names
  let name := Text.free taken (Text.numbered (safeIdentifier l.reserved base)) 1
  (name, { p with counters := name :: p.counters })

/-- Notes that a chain has reached a block. -/
def visit (p : Pass) (id : String) : Pass := { p with visited := id :: p.visited }

end Pass
end Generation
end VisualBlocks

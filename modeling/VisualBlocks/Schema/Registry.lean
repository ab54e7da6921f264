import VisualBlocks.Json.Reader
import VisualBlocks.Schema.Descriptor

/-!
# Registries

A registry holds the declared block types in the order in which they were registered.  Types are
registered in batches, and a batch is taken as a whole or not at all: no type may have a name that
is taken, and no type may have two sockets of one name.
-/

set_option autoImplicit false

namespace VisualBlocks

/-- Declared block types in order of registration. -/
structure Registry where
  types : List BlockType
deriving Repr, BEq, Inhabited

namespace Registry

/-- The registry without types. -/
def empty : Registry := ⟨[]⟩

/-- The type of a name. -/
def get? (r : Registry) (name : String) : Option BlockType := r.types.find? fun t => t.name == name

/-- Is there a type of the name? -/
def contains (r : Registry) (name : String) : Bool := (r.get? name).isSome

/-- The names of the sockets of a type. -/
def socketNames? (r : Registry) (name : String) : Option (List String) :=
  (r.get? name).map fun t => t.sockets.map (·.name)

/-- The literal that stands in for an empty value socket. -/
def socketDefault? (r : Registry) (type socket : String) : Option String :=
  ((r.get? type).bind (·.socket? socket)).bind (·.default?)

/-! ## Registration -/

/-- The first name that occurs for a second time. -/
def firstRepeated? (seen : List String) : List String → Option String
  | [] => none
  | n :: ns => if seen.contains n then some n else firstRepeated? (n :: seen) ns

/-- Checks the types of a batch one after the other against the names taken so far. -/
def checkBatch (taken : List String) : List BlockType → Except DeclarationError Unit
  | [] => .ok ()
  | t :: ts =>
    if taken.contains t.name then .error ⟨some t.name, .alreadyRegistered⟩
    else
      match firstRepeated? [] (t.sockets.map (·.name)) with
      | some socket => .error ⟨some t.name, .repeatedSocket socket⟩
      | none => checkBatch (t.name :: taken) ts

/-- Registers a batch of types. -/
def register (r : Registry) (batch : List BlockType) : Except DeclarationError Registry := do
  checkBatch (r.types.map (·.name)) batch
  return ⟨r.types ++ batch⟩

/-- The types that a JSON text declares: an array of descriptors, or a single one. -/
def readDescriptors (text : String) : Except DeclarationError (List BlockType) :=
  match Json.parse text with
  | none => .error ⟨none, .notJson⟩
  | some (.array items) => items.mapM BlockType.ofJson
  | some (.object members) => [Json.object members].mapM BlockType.ofJson
  | some _ => .error ⟨none, .notDescriptors⟩

/-- Registers the types that a JSON text declares. -/
def registerJson (r : Registry) (text : String) : Except DeclarationError Registry := do
  r.register (← readDescriptors text)

end Registry
end VisualBlocks

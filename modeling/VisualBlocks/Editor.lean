import VisualBlocks.Toolbox.Basic
import VisualBlocks.Workspace.Basic

/-!
# Editors

An editor shows a graph of blocks.  It is injected with the declared types and a toolbox, which it
can refuse, and is disposed in the end.  `EmbeddedEditor` says so of a type of editors.

`Editor` is an editor without a surface: it holds a workspace, offers the types of its toolbox, and
refuses a toolbox that mentions types which are not declared.
-/

set_option autoImplicit false

namespace VisualBlocks

/-- What can be embedded: editors `ε` that refuse a toolbox for reasons `φ`. -/
class EmbeddedEditor (ε : Type) (φ : outParam Type) where
  /-- Gives the editor its toolbox. -/
  inject : ε → Registry → Toolbox → Except φ ε
  /-- The blocks it shows. -/
  graph : ε → Graph
  /-- Closes the editor. -/
  dispose : ε → ε

/-- An editor without a surface of its own. -/
structure Editor where
  workspace : Workspace
  injected : Bool
  disposed : Bool
  palette : List String
deriving Repr, DecidableEq, Inhabited

namespace Editor

/-- An editor for a workspace. -/
def new (w : Workspace) : Editor := ⟨w, false, false, []⟩

/-- Why an editor refuses a toolbox: it mentions these types, which are not declared. -/
structure UnknownTypes where
  names : List String
deriving Repr, DecidableEq, Inhabited

/-- The wording of the refusal. -/
def UnknownTypes.message (e : UnknownTypes) : String :=
  "Toolbox references unregistered block types: " ++ String.intercalate ", " e.names ++ "."

/-- Gives the editor its toolbox. -/
def inject (e : Editor) (r : Registry) (t : Toolbox) : Except UnknownTypes Editor :=
  match t.unknownTypes r with
  | [] => .ok { e with injected := true, palette := t.palette }
  | names => .error ⟨names⟩

/-- Closes the editor, which then offers nothing. -/
def dispose (e : Editor) : Editor := { e with disposed := true, palette := [] }

/-- Editors without a surface can be embedded. -/
instance : EmbeddedEditor Editor UnknownTypes where
  inject := inject
  graph e := e.workspace.graph
  dispose := dispose

end Editor
end VisualBlocks

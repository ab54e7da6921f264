import VisualBlocks.Editor
import VisualBlocks.Generation.Walk
import VisualBlocks.Vocabulary

/-!
# Adapters

An adapter keeps generated text in step with an editor.  It is mounted with one editor, generates
the text anew at each change of the blocks and delivers it to its observers, and is disposed once.

* Mounting twice changes nothing, and a disposed adapter cannot be mounted.
* An editor that refuses the toolbox leaves the adapter unmounted.
* Only an event that changes blocks, on a mounted adapter, has text delivered.
-/

set_option autoImplicit false

namespace VisualBlocks

/-- What an editor reports. -/
inductive ChangeEvent where
  | create (block : String)
  | delete (block : String)
  | change (block field : String)
  | move (block : String)
  | selected (block : Option String)
  | scroll
  | zoom
deriving Repr, DecidableEq, Inhabited

namespace ChangeEvent

/-- Does the event change blocks?  The others concern what the user sees. -/
def isStructural : ChangeEvent → Bool
  | .create _ => true
  | .delete _ => true
  | .change _ _ => true
  | .move _ => true
  | _ => false

/-- The event that an editor reports under a name. -/
def ofKind? (kind : String) (block : Option String) : Option ChangeEvent :=
  match kind with
  | "create" => some (.create (block.getD ""))
  | "delete" => some (.delete (block.getD ""))
  | "change" => some (.change (block.getD "") "")
  | "move" => some (.move (block.getD ""))
  | "selected" => some (.selected block)
  | "viewport_change" => some .scroll
  | "zoom" => some .zoom
  | _ => none

end ChangeEvent

namespace Adapter

/-- Where an adapter stands in its life. -/
inductive State where
  | unmounted
  | mounted
  | disposed
deriving Repr, DecidableEq, Inhabited

/-- Why an adapter cannot be mounted: it has been disposed, or the editor refuses. -/
inductive MountError (φ : Type) where
  | disposed
  | editor (e : φ)
deriving Repr, DecidableEq, Inhabited

/-- The wording of a refusal, given the wording of the editor. -/
def MountError.message {φ : Type} (wording : φ → String) : MountError φ → String
  | .disposed => "Cannot mount a disposed workspace adapter."
  | .editor e => wording e

end Adapter

/-- An adapter for editors `ε`: what it was made for, its editor while it is mounted, who listens,
and the text delivered last. -/
structure Adapter (ε : Type) where
  generator : Generation.Generator
  registry : Registry
  toolbox : Toolbox
  editor : Option ε
  observers : List Nat
  state : Adapter.State
  current : Option String

namespace Adapter

variable {ε φ : Type}

/-- An adapter that is not mounted. -/
def new (generator : Generation.Generator) (registry : Registry) (toolbox : Toolbox) : Adapter ε :=
  ⟨generator, registry, toolbox, none, [], .unmounted, none⟩

/-- Mounts an editor, and says whether it was needed. -/
def mount [EmbeddedEditor ε φ] (a : Adapter ε) (e : ε) : Except (MountError φ) (Bool × Adapter ε) :=
  match a.state with
  | .mounted => .ok (false, a)
  | .disposed => .error .disposed
  | .unmounted =>
    match EmbeddedEditor.inject e a.registry a.toolbox with
    | .error e => .error (.editor e)
    | .ok e => .ok (true, { a with editor := some e, state := .mounted })

/-- Adds an observer under a number. -/
def subscribe (a : Adapter ε) (observer : Nat) : Adapter ε :=
  { a with observers := a.observers ++ [observer] }

/-- Changes the editor, if there is one. -/
def edit (a : Adapter ε) (f : ε → ε) : Adapter ε := { a with editor := a.editor.map f }

/-- What handling an event delivers: a text, and the observers that hear it, in turn. -/
structure Delivery where
  code : String
  heard : List Nat
deriving Repr, DecidableEq

/-- Handles an event. -/
def handle [EmbeddedEditor ε φ] (a : Adapter ε) (event : ChangeEvent) :
    Option Delivery × Adapter ε :=
  match event.isStructural, a.state, a.editor with
  | true, .mounted, some e =>
    let code := a.generator.graphCode (EmbeddedEditor.graph e)
    (some ⟨code, a.observers⟩, { a with current := some code })
  | _, _, _ => (none, a)

/-- Takes the adapter down: the editor it has closed, whether there was anything to do, and the
adapter afterwards. -/
def dispose [EmbeddedEditor ε φ] (a : Adapter ε) : Option ε × Bool × Adapter ε :=
  match a.state with
  | .disposed => (none, false, a)
  | _ => (a.editor.map EmbeddedEditor.dispose, true,
      { a with editor := none, observers := [], state := .disposed })

end Adapter

namespace Preset

/-- An adapter for a preset. -/
def adapter {ε : Type} (p : Preset) : Adapter ε := .new p.generator p.registry p.toolbox

/-- The text that an adapter for the preset delivers for a workspace. -/
def codeThroughAdapter (p : Preset) (w : Workspace) :
    Except (Adapter.MountError Editor.UnknownTypes) String := do
  let (_, a) ← p.adapter.mount (Editor.new w)
  let first := (a.editor.bind fun e => e.workspace.top.head?).getD ""
  return (((a.handle (.create first)).1).map (·.code)).getD ""

end Preset
end VisualBlocks

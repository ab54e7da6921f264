import VisualBlocks.Generation.Automation
import VisualBlocks.Generation.Canvas
import VisualBlocks.Schema.Builtin
import VisualBlocks.Toolbox.Builtin

/-!
# Vocabularies

A vocabulary is a choice of block families.  Each of the three has the standard blocks; two of them
add a family of their own.  A `Preset` is all that belongs to a vocabulary: the declared types, the
generator and the toolbox.
-/

set_option autoImplicit false

namespace VisualBlocks

/-- A choice of block families. -/
inductive Vocabulary where
  | standard
  | automation
  | canvas
deriving Repr, DecidableEq, Inhabited

/-- All that belongs to a vocabulary. -/
structure Preset where
  vocabulary : Vocabulary
  registry : Registry
  generator : Generation.Generator
  toolbox : Toolbox

namespace Vocabulary

/-- Why there is no preset: the vocabulary has a name that is not known, or the further types
cannot be registered. -/
inductive Error where
  | unknownName (name : String)
  | customTypes (e : DeclarationError)
deriving Repr, DecidableEq, Inhabited

/-- The wording of an error. -/
def Error.message : Error → String
  | .unknownName name =>
    "Unknown vocabulary '" ++ name ++ "'. Expected one of: standard, automation, canvas."
  | .customTypes e => "Failed to register custom block definitions: " ++ e.message

/-- The vocabulary of a name.  White space around it and the case of ASCII letters do not matter,
and the empty name stands for the standard blocks. -/
def ofName (name : String) : Except Error Vocabulary :=
  match String.ofList ((Text.trim name).toList.map Char.toLower) with
  | "" => .ok .standard
  | "standard" => .ok .standard
  | "automation" => .ok .automation
  | "sap" => .ok .automation
  | "canvas" => .ok .canvas
  | other => .error (.unknownName other)

/-- The name. -/
def name : Vocabulary → String
  | .standard => "standard"
  | .automation => "automation"
  | .canvas => "canvas"

/-- The block types, those of the standard blocks first. -/
def types : Vocabulary → List BlockType
  | .standard => Builtin.standard
  | .automation => Builtin.standard ++ Builtin.automation
  | .canvas => Builtin.standard ++ Builtin.canvas

/-- The toolbox, with the standard categories first. -/
def toolbox : Vocabulary → Toolbox
  | .standard => ⟨Builtin.standardCategories⟩
  | .automation => ⟨Builtin.standardCategories ++ Builtin.automationCategories⟩
  | .canvas => ⟨Builtin.standardCategories ++ Builtin.canvasCategories⟩

/-- The generator over the given types. -/
def generator (v : Vocabulary) (registry : Registry) : Generation.Generator :=
  let base := { Generation.Standard.generator with registry }
  match v with
  | .standard => base
  | .automation => Generation.Automation.extend base
  | .canvas => Generation.Canvas.extend base

/-- The preset over the given types. -/
def presetOver (v : Vocabulary) (registry : Registry) : Preset :=
  ⟨v, registry, v.generator registry, v.toolbox⟩

/-- The preset with the built-in types. -/
def preset (v : Vocabulary) : Preset := v.presetOver ⟨v.types⟩

/-- The preset with the built-in types and those that a JSON text declares, if there is one. -/
def presetWith (v : Vocabulary) (custom : Option String) : Except Error Preset :=
  match custom with
  | none => .ok v.preset
  | some text =>
    match (⟨v.types⟩ : Registry).registerJson text with
    | .error e => .error (.customTypes e)
    | .ok registry => .ok (v.presetOver registry)

end Vocabulary
end VisualBlocks

import VisualBlocks.Toolbox.Basic
import VisualBlocks.Xml.Reader
import VisualBlocks.Xml.Writer

/-!
# Toolboxes in XML

`category` elements hold `block` elements, `value` elements below those stand for inputs, and
`shadow` elements below those for shadow blocks with the first of their `field` elements.  Names of
inputs, shadow types and fields may be missing and are empty then; a category has to have a name
and a block a type.
-/

set_option autoImplicit false

namespace VisualBlocks
namespace Toolbox

open Xml (Tag)

/-- Why a toolbox is refused. -/
inductive ReadError where
  | notXml
  | nameMissing
  | typeMissing
deriving Repr, DecidableEq, Inhabited

/-- The wording of a refusal. -/
def ReadError.message : ReadError → String
  | .notXml => "Invalid toolbox XML"
  | .nameMissing => "Toolbox <category> missing 'name'."
  | .typeMissing => "Toolbox <block> missing 'type'."

/-! ## Reading -/

/-- The shadow block of a `shadow` element in an input. -/
def readShadow (input : String) (shadow : Tag × List Xml.Node) : ShadowPreset :=
  let (field, value) := match (Xml.elementsNamed "field" shadow.2).head? with
    | some (tag, inner) => (tag.getD "name", Xml.directText inner)
    | none => ("", "")
  ⟨input, shadow.1.getD "type", field, value⟩

/-- The entry of a `block` element. -/
def readEntry (block : Tag × List Xml.Node) : Except ReadError ToolboxEntry :=
  match block.1.get? "type" with
  | none => .error .typeMissing
  | some type => .ok ⟨type, (Xml.elementsNamed "value" block.2).flatMap fun (tag, inner) =>
      (Xml.elementsNamed "shadow" inner).map (readShadow (tag.getD "name"))⟩

/-- The category of a `category` element. -/
def readCategory (category : Tag × List Xml.Node) : Except ReadError ToolboxCategory :=
  match category.1.get? "name" with
  | none => .error .nameMissing
  | some name => do
    return ⟨name, category.1.getD "colour",
      ← (Xml.elementsNamed "block" category.2).mapM readEntry⟩

/-- The toolbox that an XML text describes. -/
def ofXmlText (text : String) : Except ReadError Toolbox :=
  match Xml.parse text with
  | none => .error .notXml
  | some (_, children) => do
    return ⟨← (Xml.elementsNamed "category" children).mapM readCategory⟩

/-! ## Writing -/

/-- A shadow block, in the input it fills. -/
def writeShadow (s : ShadowPreset) : Xml.Node :=
  Xml.node "value" [("name", s.input)] [Xml.node "shadow" [("type", s.type)]
    [Xml.node "field" [("name", s.field)] [.text s.value]]]

/-- An entry as a `block` element. -/
def writeEntry (e : ToolboxEntry) : Xml.Node :=
  Xml.node "block" [("type", e.type)] (e.shadows.map writeShadow)

/-- A category as a `category` element. -/
def writeCategory (c : ToolboxCategory) : Xml.Node :=
  Xml.node "category" [("name", c.name), ("colour", c.colour)] (c.entries.map writeEntry)

/-- The toolbox as an XML text. -/
def toXmlText (t : Toolbox) : String := (Xml.node "xml" [] (t.categories.map writeCategory)).render

end Toolbox
end VisualBlocks

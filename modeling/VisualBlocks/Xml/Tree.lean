import VisualBlocks.Table

/-!
# XML trees

What is kept of an XML document: elements with their attributes and, below them, elements and runs
of text.  Names have lost their namespace prefix.  Comments and processing instructions leave no
trace except that they separate runs of text.
-/

set_option autoImplicit false

namespace VisualBlocks
namespace Xml

/-- The name and the attributes of an element. -/
structure Tag where
  name : String
  attributes : Table String
deriving Repr, DecidableEq, Inhabited

/-- An element or a run of text. -/
inductive Node where
  | element (tag : Tag) (children : List Node)
  | text (content : String)
deriving Repr, Inhabited

/-- The value of an attribute. -/
def Tag.get? (t : Tag) (name : String) : Option String := t.attributes.get? name

/-- The value of an attribute, empty when it is absent. -/
def Tag.getD (t : Tag) (name : String) : String := (t.get? name).getD ""

/-- The elements among the nodes. -/
def elements (nodes : List Node) : List (Tag × List Node) :=
  nodes.filterMap fun
    | .element tag children => some (tag, children)
    | .text _ => none

/-- The elements of a name among the nodes. -/
def elementsNamed (name : String) (nodes : List Node) : List (Tag × List Node) :=
  (elements nodes).filter fun e => e.1.name == name

/-- The runs of text among the nodes, put together. -/
def directText (nodes : List Node) : String :=
  String.join (nodes.filterMap fun
    | .text content => some content
    | .element _ _ => none)

/-- An element with the given attributes. -/
def node (name : String) (attributes : List (String × String)) (children : List Node) : Node :=
  .element ⟨name, Table.ofList attributes⟩ children

end Xml
end VisualBlocks

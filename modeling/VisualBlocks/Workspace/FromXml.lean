import VisualBlocks.Number.Binary
import VisualBlocks.Number.Reading
import VisualBlocks.Workspace.Saved
import VisualBlocks.Xml.Reader

/-!
# Workspaces in XML

The children `block` and `shadow` of the root are the top-level blocks.  A block element has a
`type` and optionally an `id`, and below it stand `field`, `mutation`, `value`, `statement` and
`next` elements in any order; others are passed over.  What hangs in an input or below a block is
the first `block` element there, or the first `shadow` element if there is none.
-/

set_option autoImplicit false

namespace VisualBlocks
namespace Workspace

open Xml (Tag)

/-- Uses an attribute that has to be there. -/
def withAttribute (tag : Tag) (name : String) (use : String → List Part) : List Part :=
  match tag.get? name with
  | none => [.fault (.attributeMissing tag.name name)]
  | some value => use value

/-- Is the node an element of the given name? -/
def isElement (name : String) : Xml.Node → Bool
  | .element tag _ => tag.name == name
  | .text _ => false

/-- The element of the block in a connection. -/
def connectedElement? (nodes : List Xml.Node) : Option Xml.Node :=
  (nodes.find? (isElement "block")).or (nodes.find? (isElement "shadow"))

/-- The block in a connection is one of the nodes there. -/
theorem mem_of_connectedElement? {nodes : List Xml.Node} {n : Xml.Node}
    (h : connectedElement? nodes = some n) : n ∈ nodes := by
  unfold connectedElement? at h
  rcases Option.or_eq_some_iff.1 h with h | ⟨_, h⟩ <;> exact List.mem_of_find?_eq_some h

/-- The content of a block element. -/
def Saved.ofXml : Xml.Node → Saved
  | .text _ => .fault .typeMissing
  | .element tag children =>
    match tag.get? "type" with
    | none => .fault (.attributeMissing tag.name "type")
    | some type =>
      .block type (tag.get? "id") (tag.name == "shadow") (children.attach.flatMap fun ⟨child, _⟩ =>
        match child with
        | .text _ => []
        | .element part inner =>
          let held := match _found : connectedElement? inner with
            | none => none
            | some b => some (Saved.ofXml b)
          match part.name with
          | "field" => withAttribute part "name" fun name => [.field name (Xml.directText inner)]
          | "mutation" => part.attributes.entries.map fun a => .mutation a.1 a.2
          | "value" => withAttribute part "name" fun name => held.toList.map (.input name)
          | "statement" => withAttribute part "name" fun name => held.toList.map (.input name)
          | "next" => held.toList.map .next
          | _ => [])
termination_by n => sizeOf n
decreasing_by
  rename_i hc
  have h1 := List.sizeOf_lt_of_mem hc
  have h2 := List.sizeOf_lt_of_mem (mem_of_connectedElement? ‹connectedElement? inner = some _›)
  simp only [Xml.Node.element.sizeOf_spec] at *
  omega

/-- A coordinate: the whole part of a number, zero without a number. -/
def coordinateAttribute (tag : Tag) (name : String) : Int :=
  (((tag.get? name).bind Number.float?).map Number.truncate).getD 0

/-- The top-level blocks among the children of the root. -/
def rootsOfXml (children : List Xml.Node) : List Root :=
  children.filterMap fun
    | .element tag inner =>
      if tag.name == "block" || tag.name == "shadow" then
        some ⟨Saved.ofXml (.element tag inner), coordinateAttribute tag "x",
          coordinateAttribute tag "y"⟩
      else none
    | .text _ => none

/-- The workspace that an XML text describes. -/
def ofXmlText (text : String) : Except LoadError Workspace :=
  match Xml.parse text with
  | none => .error .notXml
  | some (_, children) => ofRoots (rootsOfXml children)

end Workspace
end VisualBlocks

import VisualBlocks.Xml.Tree

/-!
# Writing XML

`Node.render` lays a tree out: elements below each other, two blanks deeper than what they stand
in, and text in line with its tags.  An element without children is one tag.  There is no
declaration and no line break at the end.
-/

set_option autoImplicit false

namespace VisualBlocks
namespace Xml

/-- The written form of a character in text. -/
def escapeInText : Char → String
  | '<' => "&lt;"
  | '>' => "&gt;"
  | '&' => "&amp;"
  | c => String.singleton c

/-- The written form of a character in an attribute value. -/
def escapeInValue : Char → String
  | '"' => "&quot;"
  | '\'' => "&apos;"
  | '\n' => "&#xA;"
  | '\r' => "&#xD;"
  | c => escapeInText c

/-- The text with every character in its written form. -/
def escapeWith (escape : Char → String) (s : String) : String := String.join (s.toList.map escape)

/-- A tag as far as its attributes go, in the order of their names. -/
def Tag.render (t : Tag) : String :=
  "<" ++ t.name ++ String.join (t.attributes.entries.map fun a =>
    " " ++ a.1 ++ "=\"" ++ escapeWith escapeInValue a.2 ++ "\"")

/-- The line break and the indentation in front of a node. -/
def lineAt (depth : Nat) : String := "\n" ++ String.ofList (List.replicate (2 * depth) ' ')

mutual

/-- The written form of a node at a depth. -/
def Node.renderAt (depth : Nat) : Node → String
  | .text content => escapeWith escapeInText content
  | .element tag children =>
    match children with
    | [] => tag.render ++ " />"
    | .text content :: rest =>
      tag.render ++ ">" ++ escapeWith escapeInText content ++ renderRow depth rest ++
        "</" ++ tag.name ++ ">"
    | .element t cs :: rest =>
      tag.render ++ ">" ++ lineAt (depth + 1) ++ Node.renderAt (depth + 1) (.element t cs) ++
        renderColumn (depth + 1) rest ++ lineAt depth ++ "</" ++ tag.name ++ ">"

/-- Nodes one after the other in one line. -/
def renderRow (depth : Nat) : List Node → String
  | [] => ""
  | n :: rest => Node.renderAt depth n ++ renderRow depth rest

/-- Nodes below each other. -/
def renderColumn (depth : Nat) : List Node → String
  | [] => ""
  | n :: rest => lineAt depth ++ Node.renderAt depth n ++ renderColumn depth rest

end

/-- The written form of a document. -/
def Node.render (n : Node) : String := n.renderAt 0

end Xml
end VisualBlocks

import VisualBlocks.Xml.Name
import VisualBlocks.Xml.Tree

/-!
# Namespaces

A prefix has to be bound where it is used: by an attribute of the tag itself or of a tag around it.
Once that is checked the prefixes are dropped, and of the attributes that then have one name the
last counts.  The attributes that bind prefixes are dropped too.
-/

set_option autoImplicit false

namespace VisualBlocks
namespace Xml

/-- The name of the attributes that bind prefixes. -/
def binder : String := "xmlns"

/-- The prefix that is bound from the beginning. -/
def standing : String := "xml"

/-- What the fixed meanings of prefixes begin with. -/
def fixedRoot : String := "http://www.w3.org/"

/-- The two prefixes with a fixed meaning, and what they mean. -/
def fixedSpaces : List (String × String) :=
  [(standing, fixedRoot ++ "XML/1998/namespace"), (binder, fixedRoot ++ "2000/xmlns/")]

/-- May an element have the name, as far as its prefix goes?  The prefixes with a fixed meaning are
for attributes only. -/
def QualifiedName.namesElement (n : QualifiedName) : Bool :=
  n.space ≠ standing && n.space ≠ binder

/-- Is the attribute a binding? -/
def isBinding (a : QualifiedName × String) : Bool :=
  a.1.space = binder || (a.1.space.isEmpty && a.1.base = binder)

/-- The prefixes that attributes bind, or nothing if one is bound in a way that is not allowed. -/
def boundSpaces? : List (QualifiedName × String) → Option (List String)
  | [] => some []
  | (name, value) :: rest =>
    if name.space = binder then
      if name.base = binder || value.isEmpty ||
          (name.base = standing && fixedSpaces.lookup standing ≠ some value) then none
      else (boundSpaces? rest).map (name.base :: ·)
    else if name.space.isEmpty && name.base = binder then
      if fixedSpaces.any fun s => s.1 = value || s.2 = value then none else boundSpaces? rest
    else boundSpaces? rest

/-- Makes a tag of a name and its attributes, given the prefixes bound around it, and returns it
with the prefixes bound below it.  No attribute but a binding may stand twice. -/
def tagOf (spaces : List String) (name : QualifiedName)
    (attributes : List (QualifiedName × String)) : Option (Tag × List String) := do
  let bound ← boundSpaces? attributes
  let spaces := bound ++ spaces
  let proper := attributes.filter fun a => !isBinding a
  let isBound (n : QualifiedName) : Bool := n.space.isEmpty || spaces.contains n.space
  guard (isBound name && proper.all fun a => isBound a.1)
  guard (proper.map (·.1)).Nodup
  return (⟨name.base, Table.ofList (proper.map fun a => (a.1.base, a.2))⟩, spaces)

end Xml
end VisualBlocks

import VisualBlocks.Xml.Character

/-!
# Qualified names

The names of elements and attributes: a name proper, and in front of it perhaps a prefix and a
colon.  A name is read character by character; what has been read of it is kept with the last
character first, as all unfinished texts of a reader are.
-/

set_option autoImplicit false

namespace VisualBlocks
namespace Xml

/-- The text of characters that were gathered with the last one first. -/
def gathered (cs : List Char) : String := String.ofList cs.reverse

/-- May the character follow what has been read of a name without colons? -/
def continuesName (read : List Char) (c : Char) : Bool :=
  if read.isEmpty then isNameStart c else isNameCharacter c

/-- A name in two parts; the first is empty when the name has no prefix. -/
structure QualifiedName where
  space : String
  base : String
deriving Repr, DecidableEq, Inhabited

namespace QualifiedName

/-- May the character follow what has been read of a qualified name?  A colon may stand inside it,
once; behind the colon the name need not begin anew. -/
def continues (read : List Char) (c : Char) : Bool :=
  if c = ':' then !read.isEmpty && !read.contains ':' else continuesName read c

/-- The name that the characters spell, the last one first.  Neither part may be empty. -/
def ofGathered? (read : List Char) : Option QualifiedName :=
  let cs := read.reverse
  let first := cs.takeWhile (· ≠ ':')
  match cs.dropWhile (· ≠ ':') with
  | [] => if first.isEmpty then none else some ⟨"", String.ofList first⟩
  | _ :: second =>
    if first.isEmpty || second.isEmpty || second.contains ':' then none
    else some ⟨String.ofList first, String.ofList second⟩

end QualifiedName

end Xml
end VisualBlocks

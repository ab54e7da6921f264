import VisualBlocks.Xml.Reference
import VisualBlocks.Xml.Token

/-!
# Assignments

A name, an equals sign and a quoted value: the form of attributes, and of the settings in the
declaration at the head of a document.  `Assignment.step` takes one token.
-/

set_option autoImplicit false

namespace VisualBlocks
namespace Xml

/-- An assignment of which a part has been read. -/
inductive Assignment where
  | named (read : List Char)
  | beforeEquals (name : QualifiedName)
  | beforeQuote (name : QualifiedName)
  | quoted (name : QualifiedName) (mark : Quote) (value : List Char)
  | reference (name : QualifiedName) (mark : Quote) (value : List Char) (read : List Char)
deriving Repr, DecidableEq

namespace Assignment

/-- Takes a token of an assignment, and gives what has now been read of it or, at the closing quote,
its name and its value.

In a value every mark stands for the characters it is written with, except that a reference is
replaced, and that neither an opening bracket in front of a name nor a character the version bars
from content may stand there.  Replacement text is taken as it is. -/
def step (version : Version) (entities : Entities) (a : Assignment) (t : Token) :
    Option (Assignment ⊕ (QualifiedName × String)) :=
  match a, t with
  | named read, .equals => (QualifiedName.ofGathered? read).map fun name => .inl (beforeQuote name)
  | named read, .character c =>
    if QualifiedName.continues read c then some (.inl (named (c :: read)))
    else if isSpace c then
      (QualifiedName.ofGathered? read).map fun name => .inl (beforeEquals name)
    else none
  | named _, _ => none
  | beforeEquals name, .equals => some (.inl (beforeQuote name))
  | beforeEquals name, .character c => if isSpace c then some (.inl (beforeEquals name)) else none
  | beforeEquals _, _ => none
  | beforeQuote name, .quote mark => some (.inl (quoted name mark []))
  | beforeQuote name, .character c => if isSpace c then some (.inl (beforeQuote name)) else none
  | beforeQuote _, _ => none
  | quoted _ _ _, .tagStart => none
  | quoted name mark value, .referenceStart => some (.inl (reference name mark value []))
  | quoted name mark value, .character c =>
    if version.admitsInContent c then some (.inl (quoted name mark (c :: value))) else none
  | quoted name mark value, t =>
    if t = .quote mark then some (.inr (name, gathered value))
    else some (.inl (quoted name mark (t.chars.reverse ++ value)))
  | reference name mark value read, .character c =>
    if continuesReference read c then some (.inl (reference name mark value (c :: read))) else none
  | reference name mark value read, .referenceEnd =>
    (Replacement.ofName? version entities read.reverse).map fun r =>
      .inl (quoted name mark (r.chars.reverse ++ value))
  | reference _ _ _ _, _ => none

end Assignment

end Xml
end VisualBlocks

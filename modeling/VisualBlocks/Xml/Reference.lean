import VisualBlocks.Xml.Name

/-!
# References

A reference stands for a character or for the text of a declared entity.  Characters are named by
their code point or, five of them, by a word.
-/

set_option autoImplicit false

namespace VisualBlocks
namespace Xml

/-- The texts of the declared entities, under their names.  Of two declarations of one name the
first counts. -/
abbrev Entities := List (List Char × List Char)

/-- The character a word stands for in every document. -/
def namedCharacter? : List Char → Option Char
  | ['l', 't'] => some '<'
  | ['g', 't'] => some '>'
  | ['a', 'm', 'p'] => some '&'
  | ['q', 'u', 'o', 't'] => some '"'
  | ['a', 'p', 'o', 's'] => some '\''
  | _ => none

/-- The value of a digit, in bases up to sixteen. -/
def digit? (c : Char) : Option Nat :=
  if c.isDigit then some (c.toNat - '0'.toNat)
  else if 'a' ≤ c && c ≤ 'f' then some (c.toNat - 'a'.toNat + 10)
  else if 'A' ≤ c && c ≤ 'F' then some (c.toNat - 'A'.toNat + 10)
  else none

/-- The character whose code point the digits of a base spell, behind a plus sign that may be
left out. -/
def characterAt? (base : Nat) (cs : List Char) : Option Char := do
  let ds := match cs with
    | '+' :: ds => ds
    | ds => ds
  guard (!ds.isEmpty)
  let n ← ds.foldlM (fun n d => do
    let v ← digit? d
    guard (v < base)
    return min (base * n + v) 0x110000) 0
  guard ((Char.ofNat n).toNat = n)
  return Char.ofNat n

/-- The character of a numeric reference, after its number sign; `x` is in front of hexadecimal
digits. -/
def numberedCharacter? (version : Version) (cs : List Char) : Option Char :=
  (match cs with
    | 'x' :: ds => characterAt? 16 ds
    | ds => characterAt? 10 ds).filter version.admits

/-- What a reference stands for. -/
inductive Replacement where
  | character (c : Char)
  | text (cs : List Char)
deriving Repr, DecidableEq

/-- The characters of a replacement. -/
def Replacement.chars : Replacement → List Char
  | character c => [c]
  | text cs => cs

/-- What a reference of a name stands for. -/
def Replacement.ofName? (version : Version) (entities : Entities) (name : List Char) :
    Option Replacement :=
  match namedCharacter? name, name with
  | some c, _ => some (.character c)
  | none, '#' :: cs => (numberedCharacter? version cs).map .character
  | none, _ => (entities.lookup name).map .text

/-- May the character follow what has been read of the name in a reference? -/
def continuesReference (read : List Char) (c : Char) : Bool :=
  continuesName read c || (read.isEmpty && c = '#')

end Xml
end VisualBlocks

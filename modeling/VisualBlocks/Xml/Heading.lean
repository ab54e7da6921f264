import VisualBlocks.Xml.Assignment

/-!
# The heading of a document

A document may begin with a declaration of its version, its encoding and whether it stands alone,
in this order; all but the version may be left out.  `Heading.step` takes one token behind the
opening mark and the word `xml`.

The first letter of each setting decides which of them it is, and the rest has to spell its name.
-/

set_option autoImplicit false

namespace VisualBlocks
namespace Xml
namespace Heading

/-- The settings of a heading. -/
inductive Setting where
  | version
  | encoding
  | standalone
deriving Repr, DecidableEq

/-- The first letter of the name of a setting, and the rest of it. -/
def Setting.spelling : Setting → Char × String
  | version => ('v', "ersion")
  | encoding => ('e', "ncoding")
  | standalone => ('s', "tandalone")

/-- The settings that may follow: at the beginning, or behind a setting. -/
def following : Option Setting → List Setting
  | none => [.version]
  | some .version => [.encoding, .standalone]
  | some .encoding => [.standalone]
  | some .standalone => []

/-- What a heading has said. -/
structure Said where
  version : Version
  encoding : Option String
deriving Repr, DecidableEq

/-- Where in a heading one is: between settings or inside one.  Behind a setting the next one needs
a blank in front. -/
inductive Place where
  | between (said : Said) (last : Option Setting) (apart : Bool)
  | inside (said : Said) (setting : Setting) (a : Assignment)
deriving Repr, DecidableEq

/-- The place at the beginning. -/
def Place.first : Place := .between ⟨.oneZero, none⟩ none true

/-- Adds the value of a setting to what has been said. -/
def Said.add? (s : Said) (setting : Setting) (value : String) : Option Said :=
  match setting with
  | .version =>
    if value = "1.0" then some { s with version := .oneZero }
    else if value = "1.1" then some { s with version := .oneOne }
    else none
  | .encoding => some { s with encoding := some value }
  | .standalone => if value = "yes" || value = "no" then some s else none

/-- Takes a token of a heading, and gives the place behind it or, at the end, what the heading
says. -/
def step (place : Place) (t : Token) : Option (Place ⊕ Said) :=
  match place with
  | .between said last apart =>
    match t with
    | .instructionEnd => if last.isSome then some (.inr said) else none
    | .character c =>
      if isSpace c then some (.inl (.between said last true))
      else if apart then
        ((following last).find? (·.spelling.1 = c)).map fun setting =>
          .inl (.inside said setting (.named []))
      else none
    | _ => none
  | .inside said setting a =>
    match a.step said.version [] t with
    | none => none
    | some (.inl a) => some (.inl (.inside said setting a))
    | some (.inr (name, value)) =>
      if name.base = setting.spelling.2 then
        (said.add? setting value).map fun said => .inl (.between said (some setting) false)
      else none

end Heading
end Xml
end VisualBlocks

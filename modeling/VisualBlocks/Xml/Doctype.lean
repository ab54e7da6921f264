import VisualBlocks.Xml.Reference
import VisualBlocks.Xml.Token

/-!
# Document types

Of a document type only the declarations of entities matter.  All else in it is skipped: its name,
the declarations of elements, attribute lists and notations, comments, quoted texts.

An entity whose name begins with a percent sign is for use in the document type itself.  There a
reference to it puts its text in front of what follows; in the value of another entity the text is
inserted as it is.  An entity that is defined outside the document has no text.
-/

set_option autoImplicit false

namespace VisualBlocks
namespace Xml
namespace Doctype

/-- Where in a document type one is.  Names and values are kept with the last character first. -/
inductive Place where
  | outside
  | comment
  | string (mark : Quote)
  | keyword (read : List Char)
  | beforeEntity
  | entity (read : List Char)
  | beforeParameter
  | parameter (read : List Char)
  | beforeValue (name : List Char)
  | value (name : List Char) (mark : Quote) (read : List Char)
  | ampersand (name : List Char) (mark : Quote) (read : List Char)
  | number (name : List Char) (mark : Quote) (read : List Char) (digits : List Char)
  | parameterInValue (name : List Char) (mark : Quote) (read : List Char) (inner : List Char)
  | parameterReference (read : List Char)
  | skipping
deriving Repr, DecidableEq

/-- What a token leads to. -/
inductive Move where
  /-- on to a place -/
  | to (place : Place)
  /-- an entity is declared -/
  | declare (name text : List Char)
  /-- a replacement text is to be read next -/
  | expand (text : List Char)
  /-- the document type is over -/
  | leave
deriving Repr, DecidableEq

/-- The place behind the keyword of a declaration. -/
def Place.ofKeyword? (keyword : List Char) : Option Place :=
  if keyword = "ENTITY".toList then some .beforeEntity
  else if ["NOTATION", "ELEMENT", "ATTLIST"].any (·.toList = keyword) then some .skipping
  else none

/-- Does the token end a reference? -/
def endsReference (t : Token) : Bool := t = .referenceEnd || t = .character ';'

/-- Takes a token in front of the value of an entity. -/
def stepBeforeValue (name : List Char) : Token → Option Move
  | .quote mark => some (.to (.value name mark []))
  | .character c =>
    if isSpace c then some (.to (.beforeValue name))
    else if c = 'S' || c = 'P' then some (.declare name [])
    else none
  | _ => none

/-- Takes a token in the value of an entity.  Numeric references are replaced at once and
references to entities are left for later. -/
def stepValue (version : Version) (name : List Char) (mark : Quote) (read : List Char)
    (t : Token) : Option Move :=
  match t with
  | .quote m =>
    if m = mark then some (.declare name read.reverse)
    else some (.to (.value name mark (m.char :: read)))
  | .referenceStart => some (.to (.ampersand name mark read))
  | .character c =>
    if c = '&' then some (.to (.ampersand name mark read))
    else if c = '%' then some (.to (.parameterInValue name mark read ['%']))
    else if version.admits c then some (.to (.value name mark (c :: read)))
    else none
  | _ => none

/-- Takes a token of a document type. -/
def step (version : Version) (entities : Entities) (place : Place) (t : Token) : Option Move :=
  match place with
  | .outside =>
    match t with
    | .tagEnd => some .leave
    | .declarationStart => some (.to (.keyword []))
    | .character c => some (.to (if c = '%' then .parameterReference ['%'] else .outside))
    | .commentStart => some (.to .comment)
    | .quote mark => some (.to (.string mark))
    | .literalStart | .literalEnd => none
    | _ => some (.to .outside)
  | .comment => some (.to (if t = .commentEnd then .outside else .comment))
  | .string mark => some (.to (if t = .quote mark then .outside else .string mark))
  | .skipping => some (.to (if t = .tagEnd then .outside else .skipping))
  | .keyword read =>
    match t with
    | .character c =>
      if c.isUpper then some (.to (.keyword (c :: read)))
      else if isSpace c then (Place.ofKeyword? read.reverse).map .to
      else none
    | _ => none
  | .beforeEntity =>
    match t with
    | .character c =>
      if isSpace c then some (.to .beforeEntity)
      else if c = '%' then some (.to .beforeParameter)
      else if isNameStart c then some (.to (.entity [c]))
      else none
    | _ => none
  | .entity read =>
    match t with
    | .character c =>
      if isSpace c then some (.to (.beforeValue read.reverse))
      else if isNameCharacter c then some (.to (.entity (c :: read)))
      else none
    | _ => none
  | .beforeParameter =>
    match t with
    | .character c =>
      if isSpace c then some (.to .beforeParameter)
      else if isNameStart c then some (.to (.parameter [c, '%']))
      else none
    | _ => none
  | .parameter read =>
    match t with
    | .character c =>
      if isSpace c then some (.to (.beforeValue read.reverse))
      else if isNameCharacter c then some (.to (.parameter (c :: read)))
      else none
    | _ => none
  | .beforeValue name => stepBeforeValue name t
  | .value name mark read => stepValue version name mark read t
  | .ampersand name mark read =>
    match t with
    | .character c =>
      if c = '#' then some (.to (.number name mark read []))
      else if version.admits c then some (.to (.value name mark (c :: '&' :: read)))
      else none
    | _ => none
  | .number name mark read digits =>
    if endsReference t then
      (numberedCharacter? version digits.reverse).map fun c => .to (.value name mark (c :: read))
    else
      match t with
      | .character c =>
        if version.admits c then some (.to (.number name mark read (c :: digits))) else none
      | _ => none
  | .parameterInValue name mark read inner =>
    if endsReference t then
      (entities.lookup inner.reverse).map fun text =>
        .to (.value name mark (text.reverse ++ read))
    else
      match t with
      | .character c =>
        if isNameCharacter c then some (.to (.parameterInValue name mark read (c :: inner)))
        else none
      | _ => none
  | .parameterReference read =>
    if endsReference t then (entities.lookup read.reverse).map .expand
    else
      match t with
      | .character c =>
        if isNameCharacter c then some (.to (.parameterReference (c :: read))) else none
      | _ => none

end Doctype
end Xml
end VisualBlocks

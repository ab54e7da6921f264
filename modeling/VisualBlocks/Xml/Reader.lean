import VisualBlocks.Xml.Doctype
import VisualBlocks.Xml.Heading
import VisualBlocks.Xml.Namespace

/-!
# Reading XML

`Xml.parse` reads a document and returns its first root element.  Further roots may follow.
Outside the roots there are only blanks, comments, processing instructions and, before the first
root, at most one document type.

A `Reader` is what has been read so far, and where in the document it stands.  `Reader.step` takes
one token; `Reader.readAll` takes all that a `Source` yields, and ends because every token leaves less
of the source.

* A run of text ends at every tag, comment, instruction and literal section.  A run of blanks only
  is dropped, also when the blanks were written as references.  Behind a literal section that is
  not blank a run is kept whatever it is.  Literal sections are always kept.
* The text of an entity that is referred to among elements is read as if it stood there.
* Line breaks are not normalised.
-/

set_option autoImplicit false

namespace VisualBlocks
namespace Xml

/-! ## What has been read -/

/-- How far the part of a document is that precedes its first root. -/
inductive Stage where
  /-- Nothing has been read. -/
  | start
  /-- There were only instructions. -/
  | instructed
  /-- A heading is too late, a document type is not. -/
  | prolog
  /-- A document type is too late as well. -/
  | body
deriving Repr, DecidableEq, Inhabited

/-- An opening tag of which a part has been read: its name and its attributes, the last one
first. -/
structure OpeningTag where
  name : QualifiedName
  attributes : List (QualifiedName × String)
deriving Repr, DecidableEq

/-- Where in a document a reader is, and what it has read of the piece of markup it is in. -/
inductive Place where
  | content
  | literal (read : List Char)
  | comment
  | reference (read : List Char)
  | instructionName (read : List Char)
  | instruction
  | heading (place : Heading.Place)
  | doctype (place : Doctype.Place)
  | tagName (read : List Char)
  | tag (tag : OpeningTag) (apart : Bool)
  | attribute (tag : OpeningTag) (a : Assignment)
  | closingName (read : List Char)
  | closing (name : QualifiedName)
deriving Repr, DecidableEq

/-- An element whose closing tag is still to come: its tag, the prefixes that are bound in it, and
what has been read of its children, the last one first. -/
structure OpenElement where
  name : QualifiedName
  tag : Tag
  spaces : List String
  children : List Node
deriving Repr

/-- What has been read of a document. -/
structure Reader where
  version : Version
  stage : Stage
  entities : Entities
  place : Place
  /-- What has been read of a run of text, the last character first. -/
  run : List Char
  /-- May the run be dropped, as far as is known? -/
  droppable : Bool
  /-- The open elements, the innermost first. -/
  opened : List OpenElement
  /-- The roots, the last one first. -/
  roots : List Node
deriving Repr

/-- What a token asks of the source. -/
inductive Demand where
  | nothing
  | expand (text : List Char)
  | recode (encoding : Encoding)
deriving Repr, DecidableEq

namespace Reader

/-- The reader of a document of which nothing has been read. -/
def start : Reader := ⟨.oneZero, .start, [], .content, [], true, [], []⟩

/-- The reader at another place. -/
def moveTo (r : Reader) (place : Place) : Reader := { r with place := place }

/-- Is the reader outside the roots? -/
def isOutside (r : Reader) : Bool := r.opened.isEmpty

/-- Adds a node to the innermost open element, or to the roots. -/
def add (r : Reader) (n : Node) : Reader :=
  match r.opened with
  | [] => { r with roots := n :: r.roots }
  | e :: rest => { r with opened := { e with children := n :: e.children } :: rest }

/-- Ends a run of text. -/
def endRun (r : Reader) : Reader :=
  let ended : Reader := { r with run := [], droppable := true }
  if r.run.isEmpty || r.droppable then ended else ended.add (.text (gathered r.run))

/-- Adds characters to a run of text; they are not all blank. -/
def extend (r : Reader) (cs : List Char) : Reader :=
  { r with run := cs.reverse ++ r.run, droppable := false }

/-- The prefixes that are bound where the reader is. -/
def spaces (r : Reader) : List String :=
  match r.opened with
  | [] => [standing]
  | e :: _ => e.spaces

/-! ## Elements -/

/-- Ends an opening tag, which opens an element or, if it is closed itself, is one. -/
def openElement? (r : Reader) (tag : OpeningTag) (closed : Bool) : Option Reader := do
  let (t, spaces) ← tagOf r.spaces tag.name tag.attributes.reverse
  let r := r.moveTo .content
  return if closed then r.add (.element t [])
    else { r with opened := ⟨tag.name, t, spaces, []⟩ :: r.opened }

/-- Ends a closing tag, which has to have the name of the innermost open element. -/
def closeElement? (r : Reader) (name : QualifiedName) : Option Reader :=
  match r.opened with
  | [] => none
  | e :: rest =>
    if e.name = name then
      some (({ r with opened := rest }.moveTo .content).add (.element e.tag e.children.reverse))
    else none

/-- Takes a token of an opening tag, in its name. -/
def stepTagName (r : Reader) (read : List Char) (t : Token) : Option Reader :=
  let named : Option OpeningTag := do
    let name ← QualifiedName.ofGathered? read
    guard name.namesElement
    return ⟨name, []⟩
  match t with
  | .tagEnd => do r.openElement? (← named) false
  | .emptyTagEnd => do r.openElement? (← named) true
  | .character c =>
    if QualifiedName.continues read c then some (r.moveTo (.tagName (c :: read)))
    else if isSpace c then named.map fun tag => r.moveTo (.tag tag true)
    else none
  | _ => none

/-- Takes a token of an opening tag, between attributes. -/
def stepTag (r : Reader) (tag : OpeningTag) (apart : Bool) (t : Token) : Option Reader :=
  match t with
  | .tagEnd => r.openElement? tag false
  | .emptyTagEnd => r.openElement? tag true
  | .character c =>
    if isSpace c then some (r.moveTo (.tag tag true))
    else if apart && isNameStart c then some (r.moveTo (.attribute tag (.named [c])))
    else none
  | _ => none

/-- Takes a token of an attribute. -/
def stepAttribute (r : Reader) (tag : OpeningTag) (a : Assignment) (t : Token) : Option Reader :=
  (a.step r.version r.entities t).map fun
    | .inl a => r.moveTo (.attribute tag a)
    | .inr value => r.moveTo (.tag { tag with attributes := value :: tag.attributes } false)

/-- Takes a token of a closing tag, in its name. -/
def stepClosingName (r : Reader) (read : List Char) (t : Token) : Option Reader :=
  match t with
  | .tagEnd => (QualifiedName.ofGathered? read).bind r.closeElement?
  | .character c =>
    if QualifiedName.continues read c then some (r.moveTo (.closingName (c :: read)))
    else if isSpace c then (QualifiedName.ofGathered? read).map fun name => r.moveTo (.closing name)
    else none
  | _ => none

/-- Takes a token of a closing tag, behind its name. -/
def stepClosing (r : Reader) (name : QualifiedName) (t : Token) : Option Reader :=
  match t with
  | .tagEnd => r.closeElement? name
  | .character c => if isSpace c then some r else none
  | _ => none

/-! ## Instructions and the heading -/

/-- Takes a token of an instruction, in its name.  Only the heading may have the name `xml`. -/
def stepInstructionName (r : Reader) (read : List Char) (t : Token) : Option Reader :=
  let isReserved := read.reverse.map Char.toLower = standing.toList
  match t with
  | .instructionEnd => if read.isEmpty || isReserved then none else some (r.moveTo .content)
  | .character c =>
    if continuesName read c then some (r.moveTo (.instructionName (c :: read)))
    else if isSpace c then
      if read.reverse = standing.toList && (r.stage = .start || r.stage = .instructed) then
        some (r.moveTo (.heading .first))
      else if isReserved then none
      else some (r.moveTo .instruction)
    else none
  | _ => none

/-- Takes a token of an instruction, behind its name. -/
def stepInstruction (r : Reader) (t : Token) : Option Reader :=
  match t with
  | .instructionEnd => some (r.moveTo .content)
  | .character c => if r.version.admits c then some r else none
  | _ => some r

/-- Takes a token of the heading. -/
def stepHeading (r : Reader) (place : Heading.Place) (t : Token) : Option (Reader × Demand) :=
  match Heading.step place t with
  | none => none
  | some (.inl place) => some (r.moveTo (.heading place), .nothing)
  | some (.inr said) =>
    let r := { r with version := said.version, stage := .prolog, place := .content }
    match said.encoding with
    | none => some (r, .nothing)
    | some name => (Encoding.ofName? name.toList).map fun e => (r, .recode e)

/-- Takes a token of the document type. -/
def stepDoctype (r : Reader) (place : Doctype.Place) (t : Token) : Option (Reader × Demand) :=
  (Doctype.step r.version r.entities place t).map fun
    | .to place => (r.moveTo (.doctype place), .nothing)
    | .declare name text =>
      ({ r with entities := r.entities ++ [(name, text)], place := .doctype .skipping }, .nothing)
    | .expand text => (r.moveTo (.doctype .outside), .expand text)
    | .leave => (r.moveTo .content, .nothing)

/-! ## Content -/

/-- Takes a mark that begins a piece of markup in content, and ends the run of text in front of
it. -/
def stepMarkup (r : Reader) (t : Token) : Option Reader :=
  let r := r.endRun
  match t with
  | .tagStart => some { r with stage := .body, place := .tagName [] }
  | .closingStart => if r.isOutside then none else some (r.moveTo (.closingName []))
  | .commentStart =>
    some { r with stage := if r.stage = .body then .body else .prolog, place := .comment }
  | .doctypeStart =>
    if r.stage = .body then none else some { r with stage := .body, place := .doctype .outside }
  | .instructionStart =>
    some { r with
      stage := if r.stage = .start then .instructed else r.stage
      place := .instructionName [] }
  | .literalStart => if r.isOutside then none else some (r.moveTo (.literal []))
  | _ => none

/-- Takes a token of content.  Outside the roots only blanks may stand between pieces of markup;
inside them the marks that mean nothing there are text. -/
def stepContent (r : Reader) (t : Token) : Option Reader :=
  match t with
  | .character c =>
    if isSpace c then
      some (if !r.isOutside then { r with run := c :: r.run }
        else if r.stage = .start then { r with stage := .prolog }
        else r)
    else if r.isOutside || !r.version.admitsInContent c then none
    else some (r.extend [c])
  | .commentEnd | .tagEnd | .equals | .quote _ | .instructionEnd | .emptyTagEnd | .referenceEnd =>
    if r.isOutside then none else some (r.extend t.chars)
  | .referenceStart => if r.isOutside then none else some (r.moveTo (.reference []))
  | t => r.stepMarkup t

/-- Takes a token of a literal section. -/
def stepLiteral (r : Reader) (read : List Char) (t : Token) : Option Reader :=
  match t with
  | .literalEnd => some ((r.moveTo .content).add (.text (gathered read)))
  | .character c =>
    if r.version.admits c then
      some { r with droppable := r.droppable && isSpace c, place := .literal (c :: read) }
    else none
  | _ => none

/-- Takes a token of a comment. -/
def stepComment (r : Reader) (t : Token) : Option Reader :=
  match t with
  | .commentEnd => some (r.moveTo .content)
  | .character c => if r.version.admits c then some r else none
  | _ => none

/-- Takes a token of a reference in content.  A character becomes part of the run of text, the text
of an entity is to be read next. -/
def stepReference (r : Reader) (read : List Char) (t : Token) : Option (Reader × Demand) :=
  match t with
  | .character c =>
    if continuesReference read c then some (r.moveTo (.reference (c :: read)), .nothing) else none
  | .referenceEnd =>
    (Replacement.ofName? r.version r.entities read.reverse).map fun replacement =>
      let (run, demand) : List Char × Demand := match replacement with
        | .character c => (c :: r.run, .nothing)
        | .text cs => (r.run, .expand cs)
      ({ r with run, droppable := r.droppable && run.all isSpace, place := .content }, demand)
  | _ => none

/-! ## Documents -/

/-- Takes a token, and gives the reader behind it and what is to be done to the source. -/
def step (r : Reader) (t : Token) : Option (Reader × Demand) :=
  let quietly (next : Option Reader) : Option (Reader × Demand) := next.map fun r => (r, .nothing)
  match r.place with
  | .content => quietly (r.stepContent t)
  | .literal read => quietly (r.stepLiteral read t)
  | .comment => quietly (r.stepComment t)
  | .reference read => r.stepReference read t
  | .instructionName read => quietly (r.stepInstructionName read t)
  | .instruction => quietly (r.stepInstruction t)
  | .heading place => r.stepHeading place t
  | .doctype place => r.stepDoctype place t
  | .tagName read => quietly (r.stepTagName read t)
  | .tag tag apart => quietly (r.stepTag tag apart t)
  | .attribute tag a => quietly (r.stepAttribute tag a t)
  | .closingName read => quietly (r.stepClosingName read t)
  | .closing name => quietly (r.stepClosing name t)

/-- The roots of a document that ends where the reader is. -/
def finish? (r : Reader) : Option (List Node) :=
  if r.place = .content && r.isOutside then some r.roots.reverse else none

end Reader

/-- Does to the source what a token asks for. -/
def Source.meet? (s : Source) : Demand → Option Source
  | .nothing => some s
  | .expand text => s.expand? text
  | .recode encoding => s.recode? encoding

/-- Whatever a token asks for leaves less than there was before the token. -/
theorem Source.measure_of_meet? {s s' s'' : Source} {t : Token} {demand : Demand}
    (h : s.next? = some (t, s')) (hd : s'.meet? demand = some s'') :
    Source.Smaller s''.measure s.measure := by
  cases demand with
  | nothing => cases hd; exact measure_of_next? h
  | expand text => exact measure_of_expand? h hd
  | recode encoding => exact measure_of_recode? h hd

/-- Takes the token at the front of the source, with all that it brings about. -/
def Reader.advance? (r : Reader) (s : Source) : Option (Reader × Source) := do
  let (t, behind) ← s.next?
  let (r, demand) ← r.step t
  return (r, ← behind.meet? demand)

/-- Advancing uses the source up. -/
theorem Reader.measure_of_advance? {r r' : Reader} {s s' : Source}
    (h : r.advance? s = some (r', s')) : Source.Smaller s'.measure s.measure := by
  simp only [advance?, Option.bind_eq_bind, Option.bind_eq_some_iff, Option.pure_def,
    Option.some.injEq, Prod.mk.injEq, Prod.exists] at h
  obtain ⟨t, behind, hn, _, demand, -, rest, hm, -, rfl⟩ := h
  exact Source.measure_of_meet? hn hm

/-- Reads to the end of a document and gives its roots. -/
def Reader.readAll (r : Reader) (s : Source) : Option (List Node) :=
  match h : r.advance? s with
  | some (r', s') =>
    have := measure_of_advance? h
    readAll r' s'
  | none => if s.isFinished then r.finish? else none
termination_by s.measure
decreasing_by assumption

/-- Reads a document and returns its first root. -/
def parse (text : String) : Option (Tag × List Node) :=
  (Reader.start.readAll (Source.ofChars text.toList)).bind fun roots => (elements roots).head?

end Xml
end VisualBlocks

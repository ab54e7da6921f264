import VisualBlocks.Proofs.Workspace.Canvas
import VisualBlocks.Proofs.Xml.RoundTrip
import VisualBlocks.Workspace.FromXml

/-!
# Canvases in XML

The editor saves a block as an element with its identifier and its type.  In it stand the mutation,
an element with the texts that describe the shape of the block, then the fields, then the inputs, and
at the end what is below the block.  Whether an input is written as a value or as statements is left
open, since the loader does not tell them apart.  A block over a shadow stands behind the shadow.

**The loader sees in that element what the sketch says** (`Sketch.ofXml_element`).  If the texts of
the sketches can be written in XML at all (`Sketch.Writable`), the document is read as it was written
(`ofXmlText_render`).
-/

set_option autoImplicit false

namespace VisualBlocks
namespace Workspace

variable {σ : Type}

/-! ## The form -/

/-- The element of a field. -/
def fieldNode (field : String × String) : Xml.Node :=
  Xml.node "field" [("name", field.1)] [.text field.2]

/-- The element of the mutation; without texts it is left out. -/
def mutationNodes (texts : List (String × String)) : List Xml.Node :=
  if texts.isEmpty then [] else [Xml.node "mutation" texts []]

section Form

variable (texts : σ → List (String × String)) (isStatement : String → String → Bool)

mutual

/-- What stands in the element of a block. -/
def Sketch.nodes : Sketch σ → List Xml.Node
  | .block _ type fields shape inputs next =>
    mutationNodes (texts shape) ++
      (fields.map fieldNode ++ (inputNodes type inputs ++ nextNodes next))

/-- What stands in a connection. -/
def Held.nodes : Held σ → List Xml.Node
  | .real b => [Xml.node "block" [("type", b.type), ("id", b.id)] b.nodes]
  | .shadow s => [Xml.node "shadow" [("type", s.type), ("id", s.id)] s.nodes]
  | .both b s =>
    [Xml.node "shadow" [("type", s.type), ("id", s.id)] s.nodes,
      Xml.node "block" [("type", b.type), ("id", b.id)] b.nodes]

/-- The elements of the inputs of a block. -/
def inputNodes (type : String) : List (String × Held σ) → List Xml.Node
  | [] => []
  | (name, held) :: rest =>
    Xml.node (if isStatement type name then "statement" else "value") [("name", name)] held.nodes ::
      inputNodes type rest

/-- The element of the chain below a block. -/
def nextNodes : Option (Held σ) → List Xml.Node
  | none => []
  | some held => [Xml.node "next" [] held.nodes]

end

/-- The element of a block on the canvas. -/
def Rooted.node (r : Rooted σ) : Xml.Node :=
  Xml.node "block" [("type", r.sketch.type), ("id", r.sketch.id), ("x", toString r.x),
    ("y", toString r.y)] (r.sketch.nodes texts isStatement)

/-- The document of a canvas. -/
def canvasNode (canvas : List (Rooted σ)) : Xml.Node :=
  Xml.node "xml" [] (canvas.map (Rooted.node texts isStatement))

/-- What the form says of a block itself. -/
def xmlTexts (fields : List (String × String)) (shape : σ) : List Part :=
  mutationParts (Table.ofList (texts shape)).entries ++ fieldParts fields

end Form

/-! ## Reading the form -/

/-- The block in a connection. -/
def savedAt? (nodes : List Xml.Node) : Option Saved := (connectedElement? nodes).map Saved.ofXml

/-- What the loader sees in an element that stands in the element of a block and holds a block, or
none. -/
def partsOf (held : Option Saved) (part : Xml.Tag) (inner : List Xml.Node) : List Part :=
  match part.name with
  | "field" => withAttribute part "name" fun name => [.field name (Xml.directText inner)]
  | "mutation" => mutationParts part.attributes.entries
  | "value" => withAttribute part "name" fun name => held.toList.map (.input name)
  | "statement" => withAttribute part "name" fun name => held.toList.map (.input name)
  | "next" => held.toList.map .next
  | _ => []

/-- What the loader sees in the element of a block. -/
def partsIn : Xml.Node → List Part
  | .text _ => []
  | .element part inner => partsOf (savedAt? inner) part inner

theorem Saved.ofXml_eq (tag : Xml.Tag) (children : List Xml.Node) :
    Saved.ofXml (.element tag children) =
      match tag.get? "type" with
      | none => .fault (.attributeMissing tag.name "type")
      | some type => .block type (tag.get? "id") (tag.name == "shadow") (children.flatMap partsIn) := by
  rw [Saved.ofXml]
  cases tag.get? "type" with
  | none => rfl
  | some type =>
    refine congrArg (Saved.block type (tag.get? "id") (tag.name == "shadow")) ?_
    conv => rhs; rw [← List.attach_map_subtype_val children, List.flatMap_map]
    refine List.flatMap_congr fun child _ => ?_
    obtain ⟨child, hchild⟩ := child
    cases child with
    | text _ => rfl
    | element part inner =>
      show partsOf _ part inner = partsOf (savedAt? inner) part inner
      refine congrArg (fun held => partsOf held part inner) ?_
      rw [savedAt?]
      cases connectedElement? inner <;> rfl

theorem partsIn_fieldNode (field : String × String) :
    partsIn (fieldNode field) = [.field field.1 field.2] := by
  have htext : Xml.directText [.text field.2] = field.2 := by
    exact String.empty_append
  show [Part.field field.1 (Xml.directText [.text field.2])] = _
  rw [htext]

theorem flatMap_fieldNode (fields : List (String × String)) :
    (fields.map fieldNode).flatMap partsIn = fieldParts fields := by
  rw [List.flatMap_map, fieldParts, List.map_eq_flatMap]
  exact List.flatMap_congr fun field _ => partsIn_fieldNode field

theorem flatMap_mutationNodes (texts : List (String × String)) :
    (mutationNodes texts).flatMap partsIn = mutationParts (Table.ofList texts).entries := by
  rw [mutationNodes]
  split
  · next h =>
    rw [List.isEmpty_iff.1 h]
    rfl
  · exact List.append_nil _

/-- The type and the identifier are found among the attributes of a block. -/
theorem get?_attributes (name type id : String) {more : List (String × String)}
    (hmore : ∀ a ∈ more, a.1 ≠ "type" ∧ a.1 ≠ "id") :
    (⟨name, .ofList (("type", type) :: ("id", id) :: more)⟩ : Xml.Tag).get? "type" = some type ∧
      (⟨name, .ofList (("type", type) :: ("id", id) :: more)⟩ : Xml.Tag).get? "id" = some id := by
  have hfree (key : String) (hkey : ∀ a ∈ more, a.1 ≠ key) : key ∉ more.map (·.1) := by
    rintro hmem
    obtain ⟨a, ha, rfl⟩ := List.mem_map.1 hmem
    exact hkey a ha rfl
  constructor
  · rw [Xml.Tag.get?, Table.ofList, List.foldl_cons, List.foldl_cons,
      Table.get?_foldl_set more _ (hfree "type" fun a ha => (hmore a ha).1), Table.get?_set,
      if_neg (show "type" ≠ "id" by decide), Table.get?_set, if_pos rfl]
  · rw [Xml.Tag.get?, Table.ofList, List.foldl_cons, List.foldl_cons,
      Table.get?_foldl_set more _ (hfree "id" fun a ha => (hmore a ha).2), Table.get?_set,
      if_pos rfl]

section Read

variable {texts : σ → List (String × String)} {isStatement : String → String → Bool}

mutual

/-- **The loader sees in an element what the sketch says.** -/
theorem Sketch.ofXml_nodes : (s : Sketch σ) → {tag : Xml.Tag} →
    (htype : tag.get? "type" = some s.type) → (hid : tag.get? "id" = some s.id) →
    Saved.ofXml (.element tag (s.nodes texts isStatement)) =
      s.saved (xmlTexts texts) (tag.name == "shadow")
  | .block id type fields shape inputs next, tag, htype, hid => by
    have hinputs := flatMap_inputNodes type inputs
    have hnext := flatMap_nextNodes next
    rw [Saved.ofXml_eq, htype, hid, Sketch.nodes, Sketch.saved, xmlTexts]
    simp only [List.flatMap_append, flatMap_mutationNodes, flatMap_fieldNode, hinputs, hnext,
      List.append_assoc, Sketch.id, Sketch.type]

theorem Held.savedAt?_nodes : (held : Held σ) →
    savedAt? (held.nodes texts isStatement) = some (held.saved (xmlTexts texts))
  | .real b =>
    have h := get?_attributes "block" b.type b.id (List.forall_mem_nil _)
    congrArg some (b.ofXml_nodes h.1 h.2)
  | .shadow s =>
    have h := get?_attributes "shadow" s.type s.id (List.forall_mem_nil _)
    congrArg some (s.ofXml_nodes h.1 h.2)
  | .both b _ =>
    have h := get?_attributes "block" b.type b.id (List.forall_mem_nil _)
    congrArg some (b.ofXml_nodes h.1 h.2)

theorem flatMap_inputNodes (type : String) : (inputs : List (String × Held σ)) →
    (inputNodes texts isStatement type inputs).flatMap partsIn = inputParts (xmlTexts texts) inputs
  | [] => rfl
  | (name, held) :: rest => by
    have hheld : partsIn (Xml.node (if isStatement type name then "statement" else "value")
        [("name", name)] (held.nodes texts isStatement)) =
          [.input name (held.saved (xmlTexts texts))] := by
      have hpart := congrArg (fun held => held.toList.map (Part.input name)) held.savedAt?_nodes
      split <;> exact hpart
    rw [inputNodes, inputParts, List.flatMap_cons, hheld, flatMap_inputNodes type rest]
    rfl

theorem flatMap_nextNodes : (next : Option (Held σ)) →
    (nextNodes texts isStatement next).flatMap partsIn = nextParts (xmlTexts texts) next
  | none => rfl
  | some held =>
    congrArg (fun held => held.toList.map Part.next ++ []) held.savedAt?_nodes

end

/-- The digits of a place are read as the double that stands for it. -/
theorem coordinateAttribute_eq {tag : Xml.Tag} {name : String} {z : Int}
    (h : tag.get? name = some (toString z)) (hlow : -2 ^ 63 ≤ z) (hhigh : z < 2 ^ 63) :
    coordinateAttribute tag name = Number.truncate (Float.ofInt z) := by
  rw [coordinateAttribute, h, Option.bind_some, Number.float?_toString hlow hhigh]
  rfl

theorem get?_place (name type id x y : String) :
    (⟨name, .ofList [("type", type), ("id", id), ("x", x), ("y", y)]⟩ : Xml.Tag).get? "x" = some x ∧
      (⟨name, .ofList [("type", type), ("id", id), ("x", x), ("y", y)]⟩ : Xml.Tag).get? "y" =
        some y := by
  simp [Xml.Tag.get?, Table.ofList]

theorem rootOfXml_node {r : Rooted σ} (hplace : r.InRange) :
    (⟨Saved.ofXml (r.node texts isStatement),
      coordinateAttribute ⟨"block", .ofList [("type", r.sketch.type), ("id", r.sketch.id),
        ("x", toString r.x), ("y", toString r.y)]⟩ "x",
      coordinateAttribute ⟨"block", .ofList [("type", r.sketch.type), ("id", r.sketch.id),
        ("x", toString r.x), ("y", toString r.y)]⟩ "y"⟩ : Root) =
      r.asRead.root (xmlTexts texts) := by
  obtain ⟨⟨hx, hx'⟩, hy, hy'⟩ := hplace
  have hmore : ∀ a ∈ [("x", toString r.x), ("y", toString r.y)], a.1 ≠ "type" ∧ a.1 ≠ "id" := by
    simp
  have hattributes := get?_attributes "block" r.sketch.type r.sketch.id hmore
  have hplaces := get?_place "block" r.sketch.type r.sketch.id (toString r.x) (toString r.y)
  rw [coordinateAttribute_eq hplaces.1 hx hx', coordinateAttribute_eq hplaces.2 hy hy',
    Rooted.node, Xml.node, r.sketch.ofXml_nodes hattributes.1 hattributes.2]
  rfl

/-- **The loader sees in the element of a canvas its sketches, at the places as they are read.** -/
theorem rootsOfXml_canvas (canvas : List (Rooted σ)) (hplaces : ∀ r ∈ canvas, r.InRange) :
    rootsOfXml (canvas.map (Rooted.node texts isStatement)) =
      (canvas.map Rooted.asRead).map (Rooted.root (xmlTexts texts)) := by
  rw [rootsOfXml, List.filterMap_map, List.map_map, ← List.filterMap_eq_map]
  exact List.filterMap_congr fun r hr => congrArg some (rootOfXml_node (hplaces r hr))

end Read

/-! ## Writing the form -/

section Write

/-- Can what stands in a block be written in XML?  All characters have to be such as a document may
hold, and a field has to have a text that is not all blank. -/
def Sketch.Writable (s : Sketch σ) : Prop :=
  (Xml.Printable s.id ∧ Xml.Printable s.type) ∧
    (∀ f ∈ s.fields,
      Xml.Printable f.1 ∧ Xml.Printable f.2 ∧ f.2.toList.all Xml.isSpace = false) ∧
    ∀ i ∈ s.inputs, Xml.Printable i.1

instance (s : Sketch σ) : Decidable s.Writable := inferInstanceAs (Decidable (_ ∧ _ ∧ _))

mutual

/-- A block and all that is drawn on it, also under other blocks. -/
def Sketch.drawn : Sketch σ → List (Sketch σ)
  | .block id type fields shape inputs next =>
    .block id type fields shape inputs next :: (drawnInInputs inputs ++ drawnInNext next)

/-- All that is drawn in a connection. -/
def Held.drawn : Held σ → List (Sketch σ)
  | .real b => b.drawn
  | .shadow s => s.drawn
  | .both b s => s.drawn ++ b.drawn

/-- All that is drawn in the inputs of a block. -/
def drawnInInputs : List (String × Held σ) → List (Sketch σ)
  | [] => []
  | (_, held) :: rest => held.drawn ++ drawnInInputs rest

/-- All that is drawn below a block. -/
def drawnInNext : Option (Held σ) → List (Sketch σ)
  | none => []
  | some held => held.drawn

end

theorem Sketch.writable_self {s : Sketch σ} (h : ∀ b ∈ s.drawn, b.Writable) : s.Writable := by
  obtain ⟨id, type, fields, shape, inputs, next⟩ := s
  rw [Sketch.drawn] at h
  exact h _ List.mem_cons_self

variable {texts : σ → List (String × String)} {isStatement : String → String → Bool}

theorem legible_fieldNode {field : String × String}
    (h : Xml.Printable field.1 ∧ Xml.Printable field.2 ∧ field.2.toList.all Xml.isSpace = false) :
    Xml.Legible (fieldNode field) := by
  refine .line (Xml.legible_tag (by decide) (List.forall_mem_singleton.2 ?_)) h.2.1 h.2.2
  exact Xml.legibleAttribute (by decide) (by decide) h.1

theorem legible_mutationNodes {texts : List (String × String)}
    (h : ∀ t ∈ texts, Xml.LegibleAttribute t) : ∀ n ∈ mutationNodes texts, Xml.Legible n := by
  rw [mutationNodes]
  split
  · nofun
  · exact List.forall_mem_singleton.2 (Xml.legible_node (by decide) h nofun)

/-- The element of a block can be read back if what stands in it can. -/
theorem legible_block {name : String} (hname : Xml.isName name.toList = true) {s : Sketch σ}
    (hs : s.Writable) (hnodes : ∀ n ∈ s.nodes texts isStatement, Xml.Legible n) :
    Xml.Legible (Xml.node name [("type", s.type), ("id", s.id)] (s.nodes texts isStatement)) := by
  refine Xml.legible_node hname (List.forall_mem_cons.2 ⟨?_, List.forall_mem_singleton.2 ?_⟩) hnodes
  · exact Xml.legibleAttribute (by decide) (by decide) hs.1.2
  · exact Xml.legibleAttribute (by decide) (by decide) hs.1.1

mutual

theorem Sketch.legible_nodes (htexts : ∀ shape, ∀ t ∈ texts shape, Xml.LegibleAttribute t) :
    (s : Sketch σ) → (h : ∀ b ∈ s.drawn, b.Writable) →
    ∀ n ∈ s.nodes texts isStatement, Xml.Legible n
  | .block id type fields shape inputs next, h => by
    obtain ⟨-, hfields, hnames⟩ := Sketch.writable_self h
    rw [Sketch.drawn, List.forall_mem_cons, List.forall_mem_append] at h
    rw [Sketch.nodes, List.forall_mem_append, List.forall_mem_append, List.forall_mem_append]
    refine ⟨legible_mutationNodes (htexts shape), List.forall_mem_map.2 fun f hf => ?_, ?_, ?_⟩
    · exact legible_fieldNode (hfields f hf)
    · exact legible_inputNodes htexts type inputs h.2.1 hnames
    · exact legible_nextNodes htexts next h.2.2

theorem Held.legible_nodes (htexts : ∀ shape, ∀ t ∈ texts shape, Xml.LegibleAttribute t) :
    (held : Held σ) → (h : ∀ b ∈ held.drawn, b.Writable) →
    ∀ n ∈ held.nodes texts isStatement, Xml.Legible n
  | .real b, h => List.forall_mem_singleton.2
    (legible_block (by decide) (Sketch.writable_self h) (b.legible_nodes htexts h))
  | .shadow s, h => List.forall_mem_singleton.2
    (legible_block (by decide) (Sketch.writable_self h) (s.legible_nodes htexts h))
  | .both b s, h => by
    rw [Held.drawn, List.forall_mem_append] at h
    refine List.forall_mem_cons.2 ⟨?_, List.forall_mem_singleton.2 ?_⟩
    · exact legible_block (by decide) (Sketch.writable_self h.1) (s.legible_nodes htexts h.1)
    · exact legible_block (by decide) (Sketch.writable_self h.2) (b.legible_nodes htexts h.2)

theorem legible_inputNodes (htexts : ∀ shape, ∀ t ∈ texts shape, Xml.LegibleAttribute t)
    (type : String) : (inputs : List (String × Held σ)) →
    (h : ∀ b ∈ drawnInInputs inputs, b.Writable) → (hnames : ∀ i ∈ inputs, Xml.Printable i.1) →
    ∀ n ∈ inputNodes texts isStatement type inputs, Xml.Legible n
  | [], _, _ => nofun
  | (name, held) :: rest, h, hnames => by
    rw [drawnInInputs, List.forall_mem_append] at h
    rw [List.forall_mem_cons] at hnames
    refine List.forall_mem_cons.2 ⟨?_, legible_inputNodes htexts type rest h.2 hnames.2⟩
    refine Xml.legible_node ?_ (List.forall_mem_singleton.2 ?_) (held.legible_nodes htexts h.1)
    · split <;> decide
    · exact Xml.legibleAttribute (by decide) (by decide) hnames.1

theorem legible_nextNodes (htexts : ∀ shape, ∀ t ∈ texts shape, Xml.LegibleAttribute t) :
    (next : Option (Held σ)) →
    (h : ∀ b ∈ drawnInNext next, b.Writable) →
    ∀ n ∈ nextNodes texts isStatement next, Xml.Legible n
  | none, _ => nofun
  | some held, h => List.forall_mem_singleton.2
    (Xml.legible_node (by decide) (List.forall_mem_nil _) (held.legible_nodes htexts h))

end

theorem isCharacter_of_isDigit {c : Char} (h : c.isDigit = true) : Xml.isCharacter c = true := by
  have hrange : 48 ≤ c.toNat ∧ c.toNat ≤ 57 := by
    simpa [Char.isDigit, UInt32.le_iff_toNat_le] using h
  rw [Xml.isCharacter, Text.inRanges, List.any_eq_true]
  exact ⟨(0x20, 0xD7FF), by decide, by simp; omega⟩

theorem printable_toString (z : Int) : Xml.Printable (toString z) := by
  have hdigits (n : ℕ) : ∀ c ∈ Number.digitChars n, Xml.isCharacter c = true :=
    fun _ hc => isCharacter_of_isDigit (Number.isDigit_digitChars hc)
  cases z with
  | ofNat n =>
    rw [Xml.Printable, Number.toList_toString_ofNat]
    exact hdigits n
  | negSucc n =>
    rw [Xml.Printable, Number.toList_toString_negSucc]
    exact List.forall_mem_cons.2 ⟨by decide, hdigits _⟩

/-- The document of a canvas can be read back. -/
theorem legible_canvasNode (htexts : ∀ shape, ∀ t ∈ texts shape, Xml.LegibleAttribute t)
    {canvas : List (Rooted σ)} (h : ∀ r ∈ canvas, ∀ b ∈ r.sketch.drawn, b.Writable) :
    Xml.Legible (canvasNode texts isStatement canvas) := by
  refine Xml.legible_node (by decide) (List.forall_mem_nil _) (List.forall_mem_map.2 fun r hr => ?_)
  have hs := Sketch.writable_self (h r hr)
  refine Xml.legible_node (by decide) ?_ (r.sketch.legible_nodes htexts (h r hr))
  refine List.forall_mem_cons.2 ⟨?_, List.forall_mem_cons.2 ⟨?_, List.forall_mem_cons.2
    ⟨?_, List.forall_mem_singleton.2 ?_⟩⟩⟩
  · exact Xml.legibleAttribute (by decide) (by decide) hs.1.2
  · exact Xml.legibleAttribute (by decide) (by decide) hs.1.1
  · exact Xml.legibleAttribute (by decide) (by decide) (printable_toString r.x)
  · exact Xml.legibleAttribute (by decide) (by decide) (printable_toString r.y)

/-- **The document of a canvas says its sketches, at the places as they are read.** -/
theorem ofXmlText_render (htexts : ∀ shape, ∀ t ∈ texts shape, Xml.LegibleAttribute t)
    {canvas : List (Rooted σ)} (hplaces : ∀ r ∈ canvas, r.InRange)
    (hwritable : ∀ r ∈ canvas, ∀ b ∈ r.sketch.drawn, b.Writable) :
    ofXmlText (canvasNode texts isStatement canvas).render =
      ofRoots ((canvas.map Rooted.asRead).map (Rooted.root (xmlTexts texts))) := by
  have hlegible : Xml.Legible (canvasNode texts isStatement canvas) :=
    legible_canvasNode htexts hwritable
  rw [ofXmlText, canvasNode, Xml.node, Xml.parse_render hlegible,
    ← rootsOfXml_canvas canvas hplaces]

end Write

end Workspace
end VisualBlocks

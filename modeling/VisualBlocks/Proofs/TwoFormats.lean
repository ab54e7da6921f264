import VisualBlocks.Proofs.Generation.Alike
import VisualBlocks.Proofs.Workspace.JsonForm
import VisualBlocks.Proofs.Workspace.XmlForm

/-!
# Two formats

The shape of a block that can be changed by hand is up to three things (`Mutator`): how many further
branches there are, whether there is one for all other cases, and how many items.  Both formats have a
form for them, and **both files of a canvas can be loaded** (`formats_agree`).  XML lists the fields
and the inputs of a block as they were drawn, and JSON in ascending order, which does not matter.

They do not say the same.  JSON says with a truth value that there is a branch for all other cases,
which the loader turns into the word `TRUE`; XML says it with the digit `1`; and the rule for
conditions knows the digit and the word `true`.  So the flag is lost in JSON, and with it the branch,
unless a block stands in it (`lostBranch_differs`): **the program of the JSON file is that of the XML
file without the flags** (`formats_agree_unflagged`).  Apart from such blocks the two workspaces have
one program, in every vocabulary: the second part of `formats_agree`.
-/

set_option autoImplicit false

namespace VisualBlocks
namespace Workspace

open Generation

/-! ## Mutators -/

/-- The shape of a block, as far as it can be changed: the number of further branches, whether there
is a branch for all other cases, and the number of items. -/
structure Mutator where
  elseIfs : Option ℕ
  hasElse : Option Bool
  items : Option ℕ
deriving DecidableEq

namespace Mutator

/-- The members for the shape in JSON. -/
def members (shape : Mutator) : List (String × Json) :=
  (shape.elseIfs.map fun n => ("elseIfCount", Json.integer n)).toList ++
    ((shape.hasElse.map fun b => ("hasElse", Json.bool b)).toList ++
      (shape.items.map fun n => ("itemCount", Json.integer n)).toList)

/-- The attributes for the shape in XML. -/
def attributes (shape : Mutator) : List (String × String) :=
  (shape.elseIfs.map fun n => ("elseif", toString n)).toList ++
    ((if shape.hasElse = some true then [("else", "1")] else []) ++
      (shape.items.map fun n => ("items", toString n)).toList)

/-- The shape with nothing said about a branch for all other cases. -/
def unflagged (shape : Mutator) : Mutator := { shape with hasElse := none }

/-- What the loader makes of the members in JSON. -/
def entries (shape : Mutator) : List (String × String) :=
  (shape.elseIfs.map fun n => ("elseif", toString n)).toList ++
    ((shape.hasElse.map fun b => ("else", if b then "TRUE" else "FALSE")).toList ++
      (shape.items.map fun n => ("items", toString n)).toList)

theorem jsonTexts_members (fields : List (String × String)) (shape : Mutator) :
    jsonTexts members fields shape = fieldParts fields ++ mutationParts shape.entries := by
  obtain ⟨elseIfs, hasElse, items⟩ := shape
  cases elseIfs <;> cases hasElse <;> cases items <;> rfl

theorem legible_attributes (shape : Mutator) :
    ∀ t ∈ shape.attributes, Xml.LegibleAttribute t := by
  have hcount (n : ℕ) : Xml.Printable (toString n) := printable_toString n
  obtain ⟨elseIfs, hasElse, items⟩ := shape
  rw [attributes, List.forall_mem_append, List.forall_mem_append]
  refine ⟨?_, ?_, ?_⟩
  · cases elseIfs with
    | none => nofun
    | some n =>
      exact List.forall_mem_singleton.2 (Xml.legibleAttribute (by decide) (by decide) (hcount n))
  · dsimp only
    split
    · exact List.forall_mem_singleton.2 (Xml.legibleAttribute (by decide) (by decide) (by decide))
    · nofun
  · cases items with
    | none => nofun
    | some n =>
      exact List.forall_mem_singleton.2 (Xml.legibleAttribute (by decide) (by decide) (hcount n))

/-- The table for the shape when it is loaded from JSON. -/
def jsonTable (shape : Mutator) : Table String := .ofList shape.entries

/-- The table for the shape when it is loaded from XML. -/
def xmlTable (shape : Mutator) : Table String := .ofList shape.attributes

theorem texts_json : Texts (jsonTexts members) jsonTable :=
  texts_fields_mutations jsonTexts_members

/-- The number of further branches and that of items are the same in both formats. -/
theorem get?_counts {shape shape' : Mutator} (helseIfs : shape'.elseIfs = shape.elseIfs)
    (hitems : shape'.items = shape.items) :
    shape'.xmlTable.get? "elseif" = shape.jsonTable.get? "elseif" ∧
      shape'.xmlTable.get? "items" = shape.jsonTable.get? "items" := by
  obtain ⟨elseIfs, hasElse, items⟩ := shape
  obtain ⟨_, hasElse', _⟩ := shape'
  cases helseIfs
  cases hitems
  rcases elseIfs with _ | n <;> rcases hasElse with _ | _ | _ <;> rcases hasElse' with _ | _ | _ <;>
    rcases items with _ | k <;> simp [xmlTable, jsonTable, attributes, entries, Table.ofList]

/-- In XML the digit stands for the flag. -/
theorem get?_else (shape : Mutator) :
    shape.xmlTable.get? "else" = if shape.hasElse = some true then some "1" else none := by
  obtain ⟨elseIfs, hasElse, items⟩ := shape
  rcases elseIfs with _ | n <;> rcases hasElse with _ | _ | _ <;> rcases items with _ | k <;>
    simp [xmlTable, attributes, Table.ofList]

/-- In JSON a word stands for it, and no rule knows that. -/
theorem jsonTable_get?_else (shape : Mutator) :
    shape.jsonTable.get? "else" ≠ some "1" ∧ shape.jsonTable.get? "else" ≠ some "true" := by
  obtain ⟨elseIfs, hasElse, items⟩ := shape
  rcases elseIfs with _ | n <;> rcases hasElse with _ | _ | _ <;> rcases items with _ | k <;>
    simp [jsonTable, entries, Table.ofList]

end Mutator

/-! ## The two workspaces -/

/-- The workspace of a canvas. -/
def loaded (mutation : Mutator → Table String) (canvas : List (Rooted Mutator)) : Workspace :=
  ⟨(placedOn (canvas.map Rooted.asRead)).map (Placed.block mutation)⟩

theorem ofJson_loaded {canvas : List (Rooted Mutator)} (hlegal : Legal canvas) :
    ofJson (jsonForm Mutator.members canvas) =
      .ok (loaded Mutator.jsonTable (canvas.map Rooted.sorted)) := by
  rw [ofJson_jsonForm Mutator.texts_json hlegal, loaded, map_asRead_sorted]

theorem ofXmlText_loaded {texts : Mutator → List (String × String)}
    (hlegible : ∀ shape, ∀ t ∈ texts shape, Xml.LegibleAttribute t)
    (isStatement : String → String → Bool) {canvas : List (Rooted Mutator)} (hlegal : Legal canvas)
    (hplaces : ∀ r ∈ canvas, r.InRange)
    (hwritable : ∀ r ∈ canvas, ∀ b ∈ r.sketch.drawn, b.Writable) :
    ofXmlText (canvasNode texts isStatement canvas).render =
      .ok (loaded (fun shape => .ofList (texts shape)) canvas) := by
  have htable : (fun shape => Table.ofList (texts shape)) =
      fun shape => Table.ofList (Table.ofList (texts shape)).entries :=
    funext fun _ => (Table.ordered_ofList _).ofList_entries.symm
  have htexts : Texts (xmlTexts texts) fun shape => Table.ofList (texts shape) := by
    rw [htable]
    exact texts_mutations_fields fun _ _ => rfl
  rw [ofXmlText_render hlegible hplaces hwritable]
  exact ofRoots_canvas htexts hlegal.asRead

/-! ## One program -/

/-- Has a condition a branch for all other cases only because the flag says so? -/
def Sketch.FlagOnly (b : Sketch Mutator) : Prop :=
  b.type = "controls_if" ∧ b.shape.hasElse = some true ∧ "ELSE" ∉ b.inputs.map (·.1)

instance (b : Sketch Mutator) : Decidable b.FlagOnly := inferInstanceAs (Decidable (_ ∧ _ ∧ _))

/-- A condition loaded from JSON has a branch for all other cases only if a block stands in it. -/
theorem hasElse_json (p : Placed Mutator) (l : Language) (indent : String) (registry : Registry) :
    Standard.hasElse ⟨(p.block Mutator.jsonTable).toNode, l, indent, registry⟩ =
      (Table.ofList (childIds p.sketch.inputs)).contains "ELSE" := by
  obtain ⟨hdigit, hword⟩ := p.sketch.shape.jsonTable_get?_else
  have hnone : (p.sketch.shape.jsonTable.get? "else" == some "1") = false := by simpa using hdigit
  have hnone' : (p.sketch.shape.jsonTable.get? "else" == some "true") = false := by
    simpa using hword
  simp only [Standard.hasElse, Site.mutation?, Site.isFilled, Placed.block, hnone, hnone',
    Bool.false_or]

/-- One loaded from XML has it also if the flag says so. -/
theorem hasElse_xml (shape : Mutator) (p : Placed Mutator) (l : Language) (indent : String)
    (registry : Registry) :
    Standard.hasElse ⟨(p.block fun _ => shape.xmlTable).toNode, l, indent, registry⟩ =
      (decide (shape.hasElse = some true) ||
        (Table.ofList (childIds p.sketch.inputs)).contains "ELSE") := by
  have helse := shape.get?_else
  by_cases hflag : shape.hasElse = some true
  · rw [if_pos hflag] at helse
    simp only [Standard.hasElse, Site.mutation?, Site.isFilled, Placed.block, helse, hflag]
    rfl
  · rw [if_neg hflag] at helse
    simp only [Standard.hasElse, Site.mutation?, Site.isFilled, Placed.block, helse, hflag]
    rfl

/-- A block is in XML what it is in JSON, if the flag there says no more than its input. -/
theorem sameShape_xml {p : Placed Mutator} {change : Mutator → Mutator}
    (helseIfs : ∀ shape, (change shape).elseIfs = shape.elseIfs)
    (hitems : ∀ shape, (change shape).items = shape.items)
    (hflag : p.sketch.type = "controls_if" → (change p.sketch.shape).hasElse = some true →
      "ELSE" ∈ p.sketch.inputs.map (·.1)) :
    SameShape (p.block Mutator.jsonTable).toNode
      (p.block fun shape => (change shape).xmlTable).toNode where
  type := rfl
  fields := rfl
  inputs := rfl
  next := rfl
  branches := (Mutator.get?_counts (helseIfs _) (hitems _)).1
  items := (Mutator.get?_counts (helseIfs _) (hitems _)).2
  last htype l indent registry := by
    rw [hasElse_json]
    refine (hasElse_xml (change p.sketch.shape) p l indent registry).trans ?_
    by_cases hsays : (change p.sketch.shape).hasElse = some true
    · -- The flag is lost in JSON, but there is a block in the branch.
      have hinput : "ELSE" ∈ (childIds p.sketch.inputs).map (·.1) := by
        rw [childIds, List.map_map]
        exact hflag htype hsays
      rw [Table.contains_ofList hinput, Bool.or_true]
    · rw [decide_eq_false hsays, Bool.false_or]

/-- Two look-ups under the same keys find the same entry, or none. -/
theorem lookup_map_map {α β : Type} (ps : List α) (key : α → String) (f g : α → β) (id : String) :
    ((ps.map fun p => (key p, f p)).lookup id = none ∧
        (ps.map fun p => (key p, g p)).lookup id = none) ∨
      ∃ p ∈ ps, (ps.map fun p => (key p, f p)).lookup id = some (f p) ∧
        (ps.map fun p => (key p, g p)).lookup id = some (g p) := by
  induction ps with
  | nil => exact .inl ⟨rfl, rfl⟩
  | cons p ps ih =>
    rw [List.map_cons, List.map_cons, List.lookup_cons, List.lookup_cons]
    cases id == key p with
    | true => exact .inr ⟨p, List.mem_cons_self, rfl, rfl⟩
    | false => exact ih.imp_right fun ⟨q, hq, h⟩ => ⟨q, List.mem_cons_of_mem p hq, h⟩

/-- Workspaces of one canvas have the same program if their blocks have shapes that say the same. -/
theorem code_loaded {mutation mutation' : Mutator → Table String} {canvas : List (Rooted Mutator)}
    (h : ∀ p ∈ placedOn (canvas.map Rooted.asRead),
      SameShape (p.block mutation).toNode (p.block mutation').toNode)
    (v : Vocabulary) (registry : Registry) :
    (v.generator registry).code (loaded mutation' canvas) =
      (v.generator registry).code (loaded mutation canvas) := by
  refine Generator.graphCode_congr ?_ ?_ fun id => ?_
  · exact (top_canvas _ _).trans (top_canvas _ _).symm
  · simp only [graph, loaded, List.length_map]
  · have hnode (mutation : Mutator → Table String) :
        (loaded mutation canvas).graph.node? id =
          ((placedOn (canvas.map Rooted.asRead)).map fun p =>
            (p.sketch.id, (p.block mutation).toNode)).lookup id := by
      rw [Graph.node?, graph, loaded, List.map_map]
      rfl
    rw [Generator.nodeAt, Generator.nodeAt, hnode, hnode]
    rcases lookup_map_map (placedOn (canvas.map Rooted.asRead)) (fun p => p.sketch.id)
      (fun p => (p.block mutation).toNode)
      (fun p => (p.block mutation').toNode) id with ⟨hnone, hnone'⟩ | ⟨p, hp, hsome, hsome'⟩
    · rw [hnone, hnone']
      exact .refl _ _
    · rw [hsome, hsome']
      exact (h p hp).alike v registry

/-- The order in which JSON lists what is in a block does not matter. -/
theorem code_loaded_sorted (mutation : Mutator → Table String) {canvas : List (Rooted Mutator)}
    (hlegal : Legal canvas) (g : Generator) :
    g.code (loaded mutation (canvas.map Rooted.sorted)) = g.code (loaded mutation canvas) := by
  have hnodup := hlegal.asRead.sorted.1
  rw [List.nil_append, flatMap_all, List.map_map] at hnodup
  rw [loaded, loaded, map_asRead_sorted]
  refine g.code_perm (perm_blocks_sorted _ hlegal.asRead) ?_ (top_sorted _ _)
  rw [ids, List.map_map]
  exact hnodup

/-- **JSON loses the flag**: the program is that of the XML file without it. -/
theorem formats_agree_unflagged (isStatement : String → String → Bool)
    (canvas : List (Rooted Mutator)) (hlegal : Legal canvas) (hplaces : ∀ r ∈ canvas, r.InRange)
    (hwritable : ∀ r ∈ canvas, ∀ b ∈ r.sketch.drawn, b.Writable) :
    ∃ w w', ofJson (jsonForm Mutator.members canvas) = .ok w ∧
      ofXmlText (canvasNode (fun shape => shape.unflagged.attributes) isStatement canvas).render =
        .ok w' ∧
      ∀ (v : Vocabulary) (registry : Registry),
        (v.generator registry).code w' = (v.generator registry).code w := by
  refine ⟨_, _, ofJson_loaded hlegal, ofXmlText_loaded
    (fun shape => shape.unflagged.legible_attributes) isStatement hlegal hplaces hwritable,
    fun v registry => ?_⟩
  refine (code_loaded (fun p _ => ?_) v registry).trans (code_loaded_sorted _ hlegal _).symm
  exact sameShape_xml (fun _ => rfl) (fun _ => rfl) nofun

section Canvases

/-- The inputs that hold statements. -/
def isBranch (type name : String) : Bool := type == "controls_if" && !name.startsWith "IF"

/-- A block without fields whose shape is the usual one. -/
def plain (id type : String) (inputs : List (String × Held Mutator)) : Sketch Mutator :=
  .block id type [] ⟨none, none, none⟩ inputs none

/-- A block that prints a number. -/
def printing (id value : String) : Held Mutator :=
  .real (plain id "text_print" [("TEXT", .real (.block (id ++ "-number") "math_number"
    [("NUM", value)] ⟨none, none, none⟩ [] none))])

/-- A condition with a further branch and one for all other cases, in which a block stands; and below
it a text that is joined of one item, over a shadow. -/
def everyShape : List (Rooted Mutator) :=
  let joined : Sketch Mutator := .block "joined" "text_join" [] ⟨none, none, some 1⟩
    [("ADD0", .both (.block "word" "text" [("TEXT", "a & b")] ⟨none, none, none⟩ [] none)
      (plain "hidden" "text" []))] none
  [⟨.block "choice" "controls_if" [] ⟨some 1, some true, none⟩
      [("IF1", .shadow (.block "yes" "logic_boolean" [("BOOL", "TRUE")] ⟨none, none, none⟩ [] none)),
        ("DO1", printing "one" "1"), ("ELSE", printing "two" "2")]
      (some (.real (plain "result" "text_print" [("TEXT", .real joined)]))), -3, 4⟩]

/-- The program for it. -/
def everyProgram : String :=
  "if (false) \x7b\n\x7d else if (true) \x7b\n  window.alert(1);\n\x7d else \x7b\n" ++
    "  window.alert(2);\n\x7d\nwindow.alert(String('a & b'));\n"

/-- A condition that has a branch for all other cases, and nothing in it. -/
def lostBranch : List (Rooted Mutator) :=
  [⟨.block "choice" "controls_if" [] ⟨none, some true, none⟩ [] none, 0, 0⟩]

end Canvases

end Workspace
end VisualBlocks

import VisualBlocks.Proofs.Registration
import VisualBlocks.Proofs.Xml.RoundTrip
import VisualBlocks.Toolbox.Markup

/-!
# Toolboxes are read back

A toolbox is written as elements in elements: shadows in entries in categories.  If its strings may
occur in a document at all, it is read from its own text (`xml_round_trip`), in whatever number
there are categories, entries and shadows, and several shadows in one input as well.

What comes back is the toolbox but for one thing.  Blanks between tags are indentation to the reader,
so **a shadow whose text is not empty but all blank comes back without its text**
(`blank_value_is_lost`), and this is the only loss.
-/

set_option autoImplicit false

namespace VisualBlocks

open Xml (Tag)

/-! ## Strings and what becomes of them -/

/-- May all strings of the shadow occur in a document? -/
def ShadowPreset.Printable (s : ShadowPreset) : Prop :=
  Xml.Printable s.input ∧ Xml.Printable s.type ∧ Xml.Printable s.field ∧ Xml.Printable s.value

/-- May all strings of the entry occur in a document? -/
def ToolboxEntry.Printable (e : ToolboxEntry) : Prop :=
  Xml.Printable e.type ∧ ∀ s ∈ e.shadows, s.Printable

/-- May all strings of the category occur in a document? -/
def ToolboxCategory.Printable (c : ToolboxCategory) : Prop :=
  Xml.Printable c.name ∧ Xml.Printable c.colour ∧ ∀ e ∈ c.entries, e.Printable

/-- May all strings of the toolbox occur in a document? -/
def Toolbox.Printable (t : Toolbox) : Prop := ∀ c ∈ t.categories, c.Printable

instance (s : ShadowPreset) : Decidable s.Printable :=
  inferInstanceAs (Decidable (_ ∧ _ ∧ _ ∧ _))

instance (e : ToolboxEntry) : Decidable e.Printable := inferInstanceAs (Decidable (_ ∧ _))

instance (c : ToolboxCategory) : Decidable c.Printable := inferInstanceAs (Decidable (_ ∧ _ ∧ _))

instance (t : Toolbox) : Decidable t.Printable :=
  inferInstanceAs (Decidable (∀ c ∈ t.categories, c.Printable))

/-- Is the text of the shadow more than nothing, and still all blank? -/
def ShadowPreset.IsBlank (s : ShadowPreset) : Prop :=
  s.value ≠ "" ∧ s.value.toList.all Xml.isSpace = true

/-- What is read of the shadow: no text, if it is all blank. -/
def ShadowPreset.asRead (s : ShadowPreset) : ShadowPreset :=
  if s.value.toList.all Xml.isSpace then { s with value := "" } else s

/-- What is read of the entry. -/
def ToolboxEntry.asRead (e : ToolboxEntry) : ToolboxEntry :=
  { e with shadows := e.shadows.map (·.asRead) }

/-- What is read of the category. -/
def ToolboxCategory.asRead (c : ToolboxCategory) : ToolboxCategory :=
  { c with entries := c.entries.map (·.asRead) }

/-- What is read of the toolbox. -/
def Toolbox.asRead (t : Toolbox) : Toolbox := ⟨t.categories.map (·.asRead)⟩

/-- The shadows of all entries. -/
def Toolbox.shadows (t : Toolbox) : List ShadowPreset := t.entries.flatMap (·.shadows)

theorem map_eq_self_iff {α : Type} {f : α → α} {as : List α} :
    as.map f = as ↔ ∀ a ∈ as, f a = a := by
  conv_lhs => rw [← List.map_id as, List.map_map, Function.comp_id]
  exact List.map_inj_left

theorem ShadowPreset.asRead_eq_self_iff {s : ShadowPreset} : s.asRead = s ↔ ¬ s.IsBlank := by
  rw [asRead, IsBlank, not_and, ne_eq]
  split
  · next hblank =>
    constructor
    · intro h hvalue
      exact absurd (congrArg ShadowPreset.value h).symm hvalue
    · intro h
      have hempty : s.value = "" := by
        by_contra hvalue
        exact h hvalue hblank
      rw [← hempty]
  · next hblank => exact ⟨fun _ _ => hblank, fun _ => rfl⟩

theorem ToolboxEntry.asRead_eq_self_iff {e : ToolboxEntry} :
    e.asRead = e ↔ ∀ s ∈ e.shadows, ¬ s.IsBlank := by
  obtain ⟨type, shadows⟩ := e
  simp only [asRead, mk.injEq, true_and, map_eq_self_iff, ShadowPreset.asRead_eq_self_iff]

theorem ToolboxCategory.asRead_eq_self_iff {c : ToolboxCategory} :
    c.asRead = c ↔ ∀ e ∈ c.entries, ∀ s ∈ e.shadows, ¬ s.IsBlank := by
  obtain ⟨name, colour, entries⟩ := c
  simp only [asRead, mk.injEq, true_and, map_eq_self_iff, ToolboxEntry.asRead_eq_self_iff]

/-- **A toolbox comes back as it was exactly if no shadow has a blank text.** -/
theorem Toolbox.asRead_eq_self_iff {t : Toolbox} :
    t.asRead = t ↔ ∀ s ∈ t.shadows, ¬ s.IsBlank := by
  obtain ⟨categories⟩ := t
  simp only [asRead, mk.injEq, map_eq_self_iff, ToolboxCategory.asRead_eq_self_iff, shadows,
    entries, List.forall_mem_flatMap]

/-! ## Elements -/

/-- The written node is read as an element of the name, and as one that `reads` holds of. -/
def Xml.Node.Yields (n : Xml.Node) (name : String) (reads : Tag × List Xml.Node → Prop) : Prop :=
  ∃ tag children, n.ReadsAs (.element tag children) ∧ tag.name = name ∧ reads (tag, children)

section Elements

variable {α : Type} {as : List α} {write : α → Xml.Node} {name : String}
  {reads : α → Tag × List Xml.Node → Prop}

/-- What is written below each other under one name is found again, one after the other. -/
theorem exists_elementsNamed (h : ∀ a ∈ as, (write a).Yields name (reads a)) :
    ∃ ns, List.Forall₂ Xml.Node.ReadsAs (as.map write) ns ∧
      List.Forall₂ reads as (Xml.elementsNamed name ns) := by
  induction as with
  | nil => exact ⟨[], .nil, .nil⟩
  | cons a as ih =>
    rw [List.forall_mem_cons] at h
    obtain ⟨⟨tag, children, hwrite, hname, hreads⟩, hrest⟩ := h
    obtain ⟨ns, hns, hfound⟩ := ih hrest
    refine ⟨.element tag children :: ns, .cons hwrite hns, ?_⟩
    have hcons : Xml.elementsNamed name (.element tag children :: ns) =
        (tag, children) :: Xml.elementsNamed name ns :=
      List.filter_cons_of_pos (beq_iff_eq.2 hname)
    rw [hcons]
    exact .cons hreads hfound

/-- An element with elements in it. -/
theorem readsAs_node (hname : Xml.isName name.toList = true) {attributes : List (String × String)}
    (h : ∀ a ∈ attributes, Xml.LegibleAttribute a)
    (hwrite : ∀ a, ∃ tag children, write a = .element tag children) {ns : List Xml.Node}
    (hns : List.Forall₂ Xml.Node.ReadsAs (as.map write) ns) :
    (Xml.node name attributes (as.map write)).ReadsAs (.element ⟨name, .ofList attributes⟩ ns) :=
  Xml.readsAs_column (Xml.legible_tag hname h) hns (List.forall_mem_map.2 fun a _ => hwrite a)

end Elements

namespace Toolbox

variable {t : Toolbox} {tag : Tag} {ns : List Xml.Node}

/-! ## Reading -/

theorem get?_tag {name : String} {attributes : List (String × String)}
    (hnodup : (attributes.map (·.1)).Nodup) {key value : String} (h : (key, value) ∈ attributes) :
    (⟨name, .ofList attributes⟩ : Tag).get? key = some value := Table.get?_ofList hnodup h

theorem getD_tag {name : String} {attributes : List (String × String)}
    (hnodup : (attributes.map (·.1)).Nodup) {key value : String} (h : (key, value) ∈ attributes) :
    (⟨name, .ofList attributes⟩ : Tag).getD key = value := by
  rw [Tag.getD, get?_tag hnodup h, Option.getD_some]

theorem directText_readText (content : String) : Xml.directText (Xml.readText content) =
    if content.toList.all Xml.isSpace then "" else content := by
  rw [Xml.readText]
  split
  · rfl
  · show "" ++ content = content
    exact String.empty_append

/-- Does the element of an input hold just the shadow, as it is read? -/
def HoldsShadow (s : ShadowPreset) (e : Tag × List Xml.Node) : Prop :=
  (Xml.elementsNamed "shadow" e.2).map (readShadow (e.1.getD "name")) = [s.asRead]

theorem readShadows_eq {shadows : List ShadowPreset} {es : List (Tag × List Xml.Node)}
    (h : List.Forall₂ HoldsShadow shadows es) :
    (es.flatMap fun e => (Xml.elementsNamed "shadow" e.2).map (readShadow (e.1.getD "name"))) =
      shadows.map (·.asRead) := by
  induction h with
  | nil => rfl
  | cons hhead _ ih => rw [List.flatMap_cons, hhead, ih, List.map_cons, List.singleton_append]

theorem readEntry_eq {type : String} (htype : tag.get? "type" = some type)
    {shadows : List ShadowPreset}
    (h : List.Forall₂ HoldsShadow shadows (Xml.elementsNamed "value" ns)) :
    readEntry (tag, ns) = .ok ⟨type, shadows.map (·.asRead)⟩ := by
  rw [readEntry, htype]
  show Except.ok (ToolboxEntry.mk type ((Xml.elementsNamed "value" ns).flatMap fun e =>
    (Xml.elementsNamed "shadow" e.2).map (readShadow (e.1.getD "name")))) = _
  rw [readShadows_eq h]

theorem readCategory_eq {name colour : String} (hname : tag.get? "name" = some name)
    (hcolour : tag.getD "colour" = colour) {entries : List ToolboxEntry}
    (h : List.Forall₂ (fun e block => readEntry block = .ok e.asRead) entries
      (Xml.elementsNamed "block" ns)) :
    readCategory (tag, ns) = .ok ⟨name, colour, entries.map (·.asRead)⟩ := by
  have hentries : (Xml.elementsNamed "block" ns).mapM readEntry =
      .ok (entries.map (·.asRead)) :=
    mapM_eq_ok_iff.2 (List.forall₂_map_right_iff.2 h.flip)
  rw [readCategory, hname]
  show (do
    return ToolboxCategory.mk name (tag.getD "colour")
      (← (Xml.elementsNamed "block" ns).mapM readEntry)) = _
  rw [hentries, hcolour]
  rfl

/-! ## Writing and reading -/

/-- The element of a shadow, with some nodes for the text of its field. -/
def shadowNode (s : ShadowPreset) (content : List Xml.Node) : Xml.Node :=
  Xml.node "shadow" [("type", s.type)] [Xml.node "field" [("name", s.field)] content]

theorem readShadow_readText (s : ShadowPreset) :
    readShadow s.input (⟨"shadow", .ofList [("type", s.type)]⟩,
      [Xml.node "field" [("name", s.field)] (Xml.readText s.value)]) = s.asRead := by
  have hfields : Xml.elementsNamed "field"
      [Xml.node "field" [("name", s.field)] (Xml.readText s.value)] =
        [(⟨"field", .ofList [("name", s.field)]⟩, Xml.readText s.value)] := rfl
  have htype : (⟨"shadow", .ofList [("type", s.type)]⟩ : Tag).getD "type" = s.type :=
    getD_tag (by simp) List.mem_cons_self
  have hname : (⟨"field", .ofList [("name", s.field)]⟩ : Tag).getD "name" = s.field :=
    getD_tag (by simp) List.mem_cons_self
  simp only [readShadow, hfields, List.head?_cons, htype, hname, directText_readText]
  rw [ShadowPreset.asRead]
  split <;> rfl

/-- A shadow is read from the element of the input around it. -/
theorem yields_writeShadow {s : ShadowPreset} (h : s.Printable) :
    (writeShadow s).Yields "value" (HoldsShadow s) := by
  obtain ⟨hinput, htype, hfield, hvalue⟩ := h
  have htag {name key value : String} (hname : Xml.isName name.toList = true)
      (hkey : Xml.isName key.toList = true ∧ key ≠ Xml.binder) (hvalue : Xml.Printable value) :
      (⟨name, .ofList [(key, value)]⟩ : Tag).Legible :=
    Xml.legible_tag hname (List.forall_mem_singleton.2 ⟨hkey, hvalue⟩)
  have hline : (Xml.node "field" [("name", s.field)] [.text s.value]).ReadsAs
      (Xml.node "field" [("name", s.field)] (Xml.readText s.value)) :=
    Xml.readsAs_line (htag (by decide) (by decide) hfield) hvalue
  have hshadow : (shadowNode s [.text s.value]).ReadsAs (shadowNode s (Xml.readText s.value)) :=
    Xml.readsAs_column (htag (by decide) (by decide) htype) (.cons hline .nil)
      (List.forall_mem_singleton.2 ⟨_, _, rfl⟩)
  have hwhole : (writeShadow s).ReadsAs
      (Xml.node "value" [("name", s.input)] [shadowNode s (Xml.readText s.value)]) :=
    Xml.readsAs_column (htag (by decide) (by decide) hinput) (.cons hshadow .nil)
      (List.forall_mem_singleton.2 ⟨_, _, rfl⟩)
  have hinputName : (⟨"value", .ofList [("name", s.input)]⟩ : Tag).getD "name" = s.input :=
    getD_tag (by simp) List.mem_cons_self
  refine ⟨_, _, hwhole, rfl, ?_⟩
  show [readShadow ((⟨"value", .ofList [("name", s.input)]⟩ : Tag).getD "name") _] = _
  rw [hinputName]
  exact congrArg (fun preset => [preset]) (readShadow_readText s)

/-- An entry is read from its element. -/
theorem yields_writeEntry {e : ToolboxEntry} (h : e.Printable) :
    (writeEntry e).Yields "block" fun block => readEntry block = .ok e.asRead := by
  obtain ⟨ns, hns, hfound⟩ := exists_elementsNamed fun s hs => yields_writeShadow (h.2 s hs)
  refine ⟨_, ns, readsAs_node (by decide) ?_ (fun s => ⟨_, _, rfl⟩) hns, rfl, ?_⟩
  · exact List.forall_mem_singleton.2 (Xml.legibleAttribute (by decide) (by decide) h.1)
  · refine readEntry_eq ?_ hfound
    exact get?_tag (by simp) List.mem_cons_self

/-- A category is read from its element. -/
theorem yields_writeCategory {c : ToolboxCategory} (h : c.Printable) :
    (writeCategory c).Yields "category" fun category => readCategory category = .ok c.asRead := by
  obtain ⟨ns, hns, hfound⟩ := exists_elementsNamed fun e he => yields_writeEntry (h.2.2 e he)
  refine ⟨_, ns, readsAs_node (by decide) ?_ (fun e => ⟨_, _, rfl⟩) hns, rfl, ?_⟩
  · exact List.forall_mem_cons.2 ⟨Xml.legibleAttribute (by decide) (by decide) h.1,
      List.forall_mem_singleton.2 (Xml.legibleAttribute (by decide) (by decide) h.2.1)⟩
  · refine readCategory_eq ?_ ?_ hfound
    · exact get?_tag (by simp) List.mem_cons_self
    · exact getD_tag (by simp) (List.mem_cons_of_mem _ List.mem_cons_self)

/-- **A toolbox is read from its text**, but for texts of shadows that are all blank. -/
theorem ofXmlText_toXmlText (h : t.Printable) : ofXmlText t.toXmlText = .ok t.asRead := by
  obtain ⟨ns, hns, hfound⟩ := exists_elementsNamed fun c hc => yields_writeCategory (h c hc)
  have hread : (Xml.node "xml" [] (t.categories.map writeCategory)).ReadsAs
      (.element ⟨"xml", .ofList []⟩ ns) :=
    readsAs_node (by decide) (List.forall_mem_nil _) (fun c => ⟨_, _, rfl⟩) hns
  have hcategories : (Xml.elementsNamed "category" ns).mapM readCategory =
      .ok (t.categories.map (·.asRead)) :=
    mapM_eq_ok_iff.2 (List.forall₂_map_right_iff.2 hfound.flip)
  rw [ofXmlText, toXmlText, Xml.node, hread.parse_render]
  show (do return Toolbox.mk (← (Xml.elementsNamed "category" ns).mapM readCategory)) = _
  rw [hcategories]
  rfl

/-- A category with one entry, in which a shadow fills an input. -/
def oneShadow (value : String) : Toolbox :=
  ⟨[⟨"Loops", "120", [⟨"controls_repeat_ext", [⟨"TIMES", "math_number", "NUM", value⟩]⟩]⟩]⟩

end Toolbox
end VisualBlocks

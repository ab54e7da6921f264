import Mathlib.Data.Option.Basic
import VisualBlocks.Proofs.Workspace.Slots
import VisualBlocks.Proofs.Xml.Characters

/-!
# Reading what is written: documents

A tree is `Legible` if its names are names without prefixes, none of them binds one, its texts hold
what a document may hold, and below an element stand either elements or one text that is not all
blank.  **A legible tree is read as it was written** (`parse_render`): the indentation of the writer
is a run of blanks, which the reader drops, and the blanks of a text are part of the text.  A text
that is all blank cannot be told from indentation, so it is dropped as well (`readsAs_line`).
-/

set_option autoImplicit false

namespace VisualBlocks

namespace Xml

/-! ## Legible trees -/

/-- May all characters of the text occur in a document? -/
def Printable (s : String) : Prop := ∀ c ∈ s.toList, isCharacter c = true

instance (s : String) : Decidable (Printable s) := List.decidableBAll _ s.toList

/-- A tag that can be read back. -/
structure Tag.Legible (t : Tag) : Prop where
  name : isName t.name.toList = true
  names : ∀ a ∈ t.attributes.entries, isName a.1.toList = true ∧ a.1 ≠ binder
  values : ∀ a ∈ t.attributes.entries, Printable a.2
  ordered : t.attributes.Ordered

/-- An attribute that can be read back. -/
def LegibleAttribute (a : String × String) : Prop :=
  (isName a.1.toList = true ∧ a.1 ≠ binder) ∧ Printable a.2

theorem legibleAttribute {name value : String} (hname : isName name.toList = true)
    (hbinder : name ≠ binder) (hvalue : Printable value) : LegibleAttribute (name, value) :=
  ⟨⟨hname, hbinder⟩, hvalue⟩

theorem legible_tag {name : String} (hname : isName name.toList = true)
    {attributes : List (String × String)} (h : ∀ a ∈ attributes, LegibleAttribute a) :
    (⟨name, .ofList attributes⟩ : Tag).Legible where
  name := hname
  names a ha := (h a (Table.mem_ofList ha)).1
  values a ha := (h a (Table.mem_ofList ha)).2
  ordered := Table.ordered_ofList attributes

/-- A tree that can be read back. -/
inductive Legible : Node → Prop
  | column {tag : Tag} {children : List Node} (htag : tag.Legible)
      (hchildren : ∀ n ∈ children, Legible n) : Legible (.element tag children)
  | line {tag : Tag} {content : String} (htag : tag.Legible) (hcontent : Printable content)
      (hblank : content.toList.all isSpace = false) : Legible (.element tag [.text content])

theorem legible_node {name : String} (hname : isName name.toList = true)
    {attributes : List (String × String)} (h : ∀ a ∈ attributes, LegibleAttribute a)
    {children : List Node} (hchildren : ∀ n ∈ children, Legible n) :
    Legible (node name attributes children) :=
  .column (legible_tag hname h) hchildren

namespace Reader

/-! ## Opening tags -/

/-- The reader among elements, with a run of blanks behind the last one. -/
def among (opened : List OpenElement) (roots : List Node) (run : List Char) : Reader :=
  ⟨.oneZero, .body, [], .content, run, true, opened, roots⟩

/-- The place behind the name of a tag and some of its attributes, the last one first. -/
def tagPlace (name : String) (attributes : List (QualifiedName × String)) : Place :=
  if attributes.isEmpty then .tagName name.toList.reverse
  else .tag ⟨⟨"", name⟩, attributes⟩ false

/-- An attribute without a prefix. -/
def plainAttribute (a : String × String) : QualifiedName × String := (⟨"", a.1⟩, a.2)

theorem scan_tagStart {name : List Char} (h : isName name = true) (rest : List Char) :
    scan .plain .plain ('<' :: (name ++ rest)) = some ⟨.tagStart, 1, .plain⟩ := by
  cases name with
  | nil => cases h
  | cons c cs =>
    rw [isName, List.all_cons, Bool.and_eq_true, Bool.and_eq_true, Bool.and_eq_true] at h
    have hc := h.2.1.1
    have hne (d : Char) (hd : isNameCharacter d = false) : c ≠ d := by
      rintro rfl
      rw [hc] at hd
      cases hd
    show scanMark .plain (c :: (cs ++ rest)) = _
    rw [scanMark, hc, Bool.or_true, if_pos rfl]
    · exact hne '?' (by decide)
    · exact hne '/' (by decide)
    · exact hne '!' (by decide)

section Tag

variable {r : Reader} {name : String} (attributes : List (QualifiedName × String))

/-- What has been read of the name of an element. -/
theorem named_tag (hname : isName name.toList = true) :
    (do
      let n ← QualifiedName.ofGathered? name.toList.reverse
      guard n.namesElement
      return (⟨n, []⟩ : OpeningTag)) = some ⟨⟨"", name⟩, []⟩ := by
  rw [ofGathered?_name hname, String.ofList_toList]
  rfl

theorem step_space (hname : isName name.toList = true) :
    (r.moveTo (tagPlace name attributes)).step (.character ' ') =
      some (r.moveTo (.tag ⟨⟨"", name⟩, attributes⟩ true), .nothing) := by
  cases attributes with
  | nil =>
    have hcontinues (read : List Char) : QualifiedName.continues read ' ' = false := by
      cases read with
      | nil => decide
      | cons c cs => exact show isNameCharacter ' ' = false by decide
    simp only [step, moveTo, tagPlace, List.isEmpty_nil, if_true, stepTagName, named_tag hname,
      hcontinues]
    rfl
  | cons a attributes => rfl

theorem step_tagEnd (hname : isName name.toList = true) :
    (r.moveTo (tagPlace name attributes)).step .tagEnd =
      ((r.openElement? ⟨⟨"", name⟩, attributes⟩ false).map fun r => (r, .nothing)) := by
  cases attributes with
  | nil =>
    simp only [step, moveTo, tagPlace, List.isEmpty_nil, if_true, stepTagName, named_tag hname]
    rfl
  | cons a attributes => rfl

theorem gathered_reverse (s : String) : gathered s.toList.reverse = s := by
  rw [gathered, List.reverse_reverse, String.ofList_toList]

/-- The name of an attribute and the equals sign are read. -/
theorem readAll_attributeName (tag : OpeningTag) {name : String} (hname : isName name.toList = true)
    (rest : List Char) :
    (r.moveTo (.tag tag true)).readAll (remaining (name.toList ++ '=' :: rest)) =
      (r.moveTo (.attribute tag (.beforeQuote ⟨"", name⟩))).readAll (remaining rest) := by
  have hgathered := ofGathered?_name hname
  rw [String.ofList_toList] at hgathered
  generalize name.toList = cs at hname hgathered
  cases cs with
  | nil => cases hname
  | cons c cs =>
    rw [isName, List.all_cons, Bool.and_eq_true, Bool.and_eq_true, Bool.and_eq_true] at hname
    obtain ⟨hstart, ⟨hc, -⟩, hcs⟩ := hname
    have hspace := isSpace_of_nameCharacter hc
    have hfirst : (r.moveTo (.tag tag true)).step (.character c) =
        some (r.moveTo (.attribute tag (.named [c])), .nothing) := by
      simp only [step, moveTo, stepTag, hspace, hstart]
      rfl
    have hmore (read : List Char) (d : Char) (hd : QualifiedName.continues read d = true) :
        (r.moveTo (.attribute tag (.named read))).step (.character d) =
          some (r.moveTo (.attribute tag (.named (d :: read))), .nothing) :=
      step_assignment tag (if_pos hd)
    have hequals : (r.moveTo (.attribute tag (.named (cs.reverse ++ [c])))).step .equals =
        some (r.moveTo (.attribute tag (.beforeQuote ⟨"", name⟩)), .nothing) := by
      rw [List.reverse_cons] at hgathered
      refine step_assignment tag ?_
      show (QualifiedName.ofGathered? (cs.reverse ++ [c])).map _ = _
      rw [hgathered]
      rfl
    have h1 := readAll_single c (cs ++ '=' :: rest) hfirst (scan_character (not_mem_marks hc) _)
      Token.noConfusion
    have h2 := readAll_gathers (fun read => .attribute tag (.named read)) hmore
      (gathers_nameCharacters hcs (List.cons_ne_nil c [])) ('=' :: rest)
    have h3 := readAll_single '=' rest hequals rfl Token.noConfusion
    exact h1.trans (h2.trans h3)

/-- An attribute is read. -/
theorem readAll_attribute (hversion : r.version = .oneZero) (hentities : r.entities = [])
    (hname : isName name.toList = true) {a : String × String} (ha : isName a.1.toList = true)
    (hvalue : Printable a.2) (rest : List Char) :
    (r.moveTo (tagPlace name attributes)).readAll (remaining
        (' ' :: (a.1.toList ++ '=' :: '"' ::
          ((escapeWith escapeInValue a.2).toList ++ '"' :: rest)))) =
      (r.moveTo (tagPlace name (plainAttribute a :: attributes))).readAll (remaining rest) := by
  have hspace : (r.moveTo (tagPlace name attributes)).step (.character ' ') =
    some (r.moveTo (.tag ⟨⟨"", name⟩, attributes⟩ true), .nothing) := step_space attributes hname
  have h1 := readAll_single ' ' (a.1.toList ++ '=' :: '"' ::
    ((escapeWith escapeInValue a.2).toList ++ '"' :: rest)) hspace rfl Token.noConfusion
  have h2 := readAll_attributeName (r := r) ⟨⟨"", name⟩, attributes⟩ ha
    ('"' :: ((escapeWith escapeInValue a.2).toList ++ '"' :: rest))
  have h3 := readAll_single
    (r := r.moveTo (.attribute ⟨⟨"", name⟩, attributes⟩ (.beforeQuote ⟨"", a.1⟩)))
    '"' ((escapeWith escapeInValue a.2).toList ++ '"' :: rest) rfl rfl Token.noConfusion
  have h4 := readAll_value (r := r) ⟨⟨"", name⟩, attributes⟩ ⟨"", a.1⟩ hversion hentities hvalue rest
  have h5 := readAll_single
    (r := r.moveTo (.attribute ⟨⟨"", name⟩, attributes⟩
      (.quoted ⟨"", a.1⟩ .double a.2.toList.reverse))) '"' rest rfl rfl Token.noConfusion
  rw [gathered_reverse] at h5
  exact h1.trans (h2.trans (h3.trans (h4.trans h5)))

/-- The written form of an attribute. -/
def attributeChars (a : String × String) : List Char :=
  ' ' :: (a.1.toList ++ '=' :: '"' :: ((escapeWith escapeInValue a.2).toList ++ ['"']))

/-- Attributes are read one after the other. -/
theorem readAll_attributes (hversion : r.version = .oneZero) (hentities : r.entities = [])
    (hname : isName name.toList = true) {as : List (String × String)}
    (has : ∀ a ∈ as, isName a.1.toList = true ∧ Printable a.2) (rest : List Char) :
    (r.moveTo (tagPlace name attributes)).readAll (remaining (as.flatMap attributeChars ++ rest)) =
      (r.moveTo (tagPlace name ((as.map plainAttribute).reverse ++ attributes))).readAll
        (remaining rest) := by
  induction as generalizing attributes with
  | nil => rfl
  | cons a as ih =>
    rw [List.forall_mem_cons] at has
    have hfirst := readAll_attribute (r := r) attributes hversion hentities hname
      has.1.1 has.1.2 (as.flatMap attributeChars ++ rest)
    have hchars : (a :: as).flatMap attributeChars ++ rest = ' ' :: (a.1.toList ++ '=' :: '"' ::
        ((escapeWith escapeInValue a.2).toList ++ '"' :: (as.flatMap attributeChars ++ rest))) := by
      simp only [List.flatMap_cons, attributeChars, List.cons_append, List.append_assoc,
        List.nil_append]
    rw [hchars, hfirst, ih _ has.2, List.map_cons, List.reverse_cons, List.append_assoc,
      List.singleton_append]

end Tag

end Reader

/-- What binds no prefix. -/
theorem boundSpaces?_plain {as : List (QualifiedName × String)}
    (h : ∀ a ∈ as, isBinding a = false) : boundSpaces? as = some [] := by
  induction as with
  | nil => rfl
  | cons a as ih =>
    rw [List.forall_mem_cons] at h
    obtain ⟨name, value⟩ := a
    have hname := h.1
    rw [isBinding, Bool.or_eq_false_iff, decide_eq_false_iff_not] at hname
    rw [boundSpaces?, if_neg hname.1, if_neg (Bool.eq_false_iff.1 hname.2)]
    exact ih h.2

/-- The tag of a legible tag is that tag, and it binds no prefix. -/
theorem Tag.Legible.tagOf {t : Tag} (h : t.Legible) (spaces : List String) :
    Xml.tagOf spaces ⟨"", t.name⟩ (t.attributes.entries.map Reader.plainAttribute) =
      some (t, spaces) := by
  have hplain : ∀ a ∈ t.attributes.entries.map Reader.plainAttribute, isBinding a = false := by
    refine List.forall_mem_map.2 fun a ha => ?_
    have hbase : (a.1 = binder : Bool) = false := decide_eq_false (h.names a ha).2
    rw [isBinding, Reader.plainAttribute, hbase]
    rfl
  have hproper : ((t.attributes.entries.map Reader.plainAttribute).filter fun a => !isBinding a) =
      t.attributes.entries.map Reader.plainAttribute :=
    List.filter_eq_self.2 fun a ha => by rw [hplain a ha]; rfl
  have hbound : ((t.attributes.entries.map Reader.plainAttribute).all fun a =>
      a.1.space.isEmpty || spaces.contains a.1.space) = true :=
    List.all_eq_true.2 (List.forall_mem_map.2 fun _ _ => rfl)
  have hnodup : ((t.attributes.entries.map Reader.plainAttribute).map (·.1)).Nodup := by
    rw [List.map_map]
    refine List.pairwise_map.2 (h.ordered.imp fun {a b} hlt heq => ?_)
    exact hlt.ne (congrArg QualifiedName.base heq)
  have htable : Table.ofList ((t.attributes.entries.map Reader.plainAttribute).map
      fun a => (a.1.base, a.2)) = t.attributes := by
    rw [List.map_map]
    exact (congrArg Table.ofList (List.map_id' _)).trans h.ordered.ofList_entries
  rw [Xml.tagOf, boundSpaces?_plain hplain]
  simp only [Option.bind_eq_bind, Option.bind_some, List.nil_append, hproper, hbound, hnodup,
    htable]
  rfl

namespace Reader

theorem toList_render (t : Tag) :
    t.render.toList = '<' :: (t.name.toList ++ t.attributes.entries.flatMap attributeChars) := by
  have hattribute (a : String × String) :
      (" " ++ a.1 ++ "=\"" ++ escapeWith escapeInValue a.2 ++ "\"").toList = attributeChars a := by
    simp [attributeChars]
  rw [Tag.render, String.toList_append, String.toList_append, String.toList_join, List.flatMap_map]
  simp only [hattribute]
  rfl

section Opening

variable {r : Reader} {opened : List OpenElement} {roots : List Node}

/-- Is the reader among elements, and the run of text that it has read to be dropped? -/
def Leads (r : Reader) (opened : List OpenElement) (roots : List Node) : Prop :=
  r.place = .content ∧ { r.endRun with stage := .body } = among opened roots []

/-- A tag is read as far as its attributes go. -/
theorem readAll_tag (hr : Leads r opened roots) {t : Tag} (ht : t.Legible) (rest : List Char) :
    r.readAll (remaining (t.render.toList ++ rest)) =
      ((among opened roots []).moveTo (tagPlace t.name
        (t.attributes.entries.map plainAttribute).reverse)).readAll (remaining rest) := by
  have hstart : r.step .tagStart =
      some ((among opened roots []).moveTo (.tagName []), .nothing) := by
    rw [← hr.2]
    simp only [step, hr.1]
    rfl
  have h1 := readAll_single '<' (t.name.toList ++ (t.attributes.entries.flatMap attributeChars ++
    rest)) hstart (scan_tagStart ht.name _) Token.noConfusion
  have hname (read : List Char) (c : Char) (hc : QualifiedName.continues read c = true) :
      ((among opened roots []).moveTo (.tagName read)).step (.character c) =
        some ((among opened roots []).moveTo (.tagName (c :: read)), .nothing) := by
    simp only [step, moveTo, stepTagName, hc]
    rfl
  have h2 := readAll_gathers .tagName hname (gathers_name ht.name)
    (t.attributes.entries.flatMap attributeChars ++ rest)
  have h3 := readAll_attributes (r := among opened roots []) [] rfl rfl ht.name
    (fun a ha => ⟨(ht.names a ha).1, ht.values a ha⟩) rest
  rw [List.append_nil] at h2 h3
  rw [toList_render, List.cons_append, List.append_assoc]
  exact h1.trans (h2.trans h3)

theorem openElement?_legible {t : Tag} (ht : t.Legible) (closed : Bool) :
    (among opened roots []).openElement?
        ⟨⟨"", t.name⟩, (t.attributes.entries.map plainAttribute).reverse⟩ closed =
      some (if closed then (among opened roots []).add (.element t []) else
        among (⟨⟨"", t.name⟩, t, (among opened roots []).spaces, []⟩ :: opened) roots []) := by
  rw [openElement?, List.reverse_reverse, ht.tagOf]
  cases closed <;> rfl

/-- An opening tag opens an element. -/
theorem readAll_opening (hr : Leads r opened roots) {t : Tag} (ht : t.Legible) (rest : List Char) :
    r.readAll (remaining (t.render.toList ++ '>' :: rest)) =
      (among (⟨⟨"", t.name⟩, t, (among opened roots []).spaces, []⟩ :: opened) roots []).readAll
        (remaining rest) := by
  have hend := step_tagEnd (r := among opened roots [])
    (t.attributes.entries.map plainAttribute).reverse ht.name
  rw [openElement?_legible ht] at hend
  exact (readAll_tag hr ht _).trans (readAll_single '>' rest hend rfl Token.noConfusion)

/-- A tag that is closed itself is an element. -/
theorem readAll_closed (hr : Leads r opened roots) {t : Tag} (ht : t.Legible) (rest : List Char) :
    r.readAll (remaining (t.render.toList ++ ' ' :: '/' :: '>' :: rest)) =
      ((among opened roots []).add (.element t [])).readAll (remaining rest) := by
  have hspace := step_space (r := among opened roots [])
    (t.attributes.entries.map plainAttribute).reverse ht.name
  have hend : ((among opened roots []).moveTo (.tag
      ⟨⟨"", t.name⟩, (t.attributes.entries.map plainAttribute).reverse⟩ true)).step .emptyTagEnd =
        some ((among opened roots []).add (.element t []), .nothing) :=
    congrArg (Option.map fun r => (r, Demand.nothing)) (openElement?_legible ht true)
  exact (readAll_tag hr ht _).trans ((readAll_single ' ' ('/' :: '>' :: rest) hspace rfl Token.noConfusion).trans
    (readAll_token ['/', '>'] rest rfl Token.noConfusion hend))

end Opening

/-! ## Closing tags and children -/

section Closing

variable {r : Reader} {e : OpenElement} {opened : List OpenElement} {roots : List Node}

/-- A closing tag closes the innermost element. -/
theorem readAll_closing (hplace : r.place = .content)
    (hend : r.endRun = among (e :: opened) roots []) {name : String}
    (hname : isName name.toList = true) (he : e.name = ⟨"", name⟩) (rest : List Char) :
    r.readAll (remaining ('<' :: '/' :: (name.toList ++ '>' :: rest))) =
      ((among opened roots []).add (.element e.tag e.children.reverse)).readAll
        (remaining rest) := by
  have hstart : r.step .closingStart =
      some ((among (e :: opened) roots []).moveTo (.closingName []), .nothing) := by
    refine step_content hplace ?_
    show (if r.endRun.isOutside then none else some (r.endRun.moveTo (.closingName []))) = _
    rw [hend]
    rfl
  have hmore (read : List Char) (c : Char) (hc : QualifiedName.continues read c = true) :
      ((among (e :: opened) roots []).moveTo (.closingName read)).step (.character c) =
        some ((among (e :: opened) roots []).moveTo (.closingName (c :: read)), .nothing) := by
    simp only [step, moveTo, stepClosingName, hc]
    rfl
  have hclose : ((among (e :: opened) roots []).moveTo
      (.closingName name.toList.reverse)).step .tagEnd =
        some ((among opened roots []).add (.element e.tag e.children.reverse), .nothing) := by
    have hgathered := ofGathered?_name hname
    rw [String.ofList_toList] at hgathered
    simp only [step, moveTo, stepClosingName, hgathered, Option.bind_some, closeElement?, among, he]
    rfl
  have h1 := readAll_token ['<', '/'] (name.toList ++ '>' :: rest) rfl Token.noConfusion hstart
  have h2 := readAll_gathers .closingName hmore (gathers_name hname) ('>' :: rest)
  rw [List.append_nil] at h2
  exact h1.trans (h2.trans (readAll_single '>' rest hclose rfl Token.noConfusion))

/-- Blanks between elements are gathered. -/
theorem readAll_blanks {blanks : List Char} (h : blanks.all isSpace = true) (run rest : List Char) :
    (among (e :: opened) roots run).readAll (remaining (blanks ++ rest)) =
      (among (e :: opened) roots (blanks.reverse ++ run)).readAll (remaining rest) := by
  induction blanks generalizing run with
  | nil => rfl
  | cons c blanks ih =>
    rw [List.all_cons, Bool.and_eq_true] at h
    have hstep : (among (e :: opened) roots run).step (.character c) =
        some (among (e :: opened) roots (c :: run), .nothing) :=
      step_content rfl (if_pos h.1)
    have hmark : c ∉ marks := by
      have hmarks : marks.all (fun c => !isSpace c) = true := by decide
      intro hc
      have hnot := List.all_eq_true.1 hmarks c hc
      rw [h.1] at hnot
      cases hnot
    rw [List.reverse_cons, List.append_assoc]
    exact (readAll_single c (blanks ++ rest) hstep (scan_character hmark _) Token.noConfusion).trans (ih h.2 _)

end Closing

/-! ## Nodes -/

theorem toList_lineAt (depth : Nat) :
    (lineAt depth).toList = '\n' :: List.replicate (2 * depth) ' ' := by
  rw [lineAt, String.toList_append]
  exact congrArg ('\n' :: ·) String.toList_ofList

theorem all_isSpace_lineAt (depth : Nat) : (lineAt depth).toList.all isSpace = true := by
  rw [toList_lineAt, List.all_cons, List.all_replicate]
  simp [isSpace]

theorem endRun_among (opened : List OpenElement) (roots : List Node) (run : List Char) :
    (among opened roots run).endRun = among opened roots [] := by
  rw [endRun]
  exact if_pos (Bool.or_true _)

theorem leads_among (opened : List OpenElement) (roots : List Node) (run : List Char) :
    Leads (among opened roots run) opened roots :=
  ⟨rfl, by rw [endRun_among]; rfl⟩

end Reader

open Reader

/-- The written node is read as another one, at every depth and wherever it stands. -/
def Node.ReadsAs (n m : Node) : Prop :=
  ∀ (depth : Nat) {r : Reader} {opened : List OpenElement} {roots : List Node},
    r.Leads opened roots → ∀ rest : List Char,
      r.readAll (remaining ((n.renderAt depth).toList ++ rest)) =
        ((among opened roots []).add m).readAll (remaining rest)

/-- What is left of the text of an element when it is read. -/
def readText (content : String) : List Node :=
  if content.toList.all isSpace then [] else [.text content]

/-- Nodes below each other become the children of the element around them. -/
theorem readAll_column (depth : Nat) {ns ms : List Node} (h : List.Forall₂ Node.ReadsAs ns ms)
    (e : OpenElement) (opened : List OpenElement) (roots : List Node) (run rest : List Char) :
    ∃ run', (among (e :: opened) roots run).readAll
        (remaining ((renderColumn depth ns).toList ++ rest)) =
      (among ({ e with children := ms.reverse ++ e.children } :: opened) roots run').readAll
        (remaining rest) := by
  induction h generalizing e run with
  | nil => exact ⟨run, rfl⟩
  | @cons n m ns ms hn _ ih =>
    obtain ⟨run', hrest⟩ := ih { e with children := m :: e.children } []
    refine ⟨run', ?_⟩
    rw [renderColumn, String.toList_append, String.toList_append, List.append_assoc,
      List.append_assoc, readAll_blanks (all_isSpace_lineAt depth), hn depth (leads_among _ _ _),
      List.reverse_cons, List.append_assoc]
    exact hrest

/-- An element with elements in it is written with them below each other. -/
theorem renderAt_column (depth : Nat) (tag t : Tag) (cs ns : List Node) :
    (Node.element tag (.element t cs :: ns)).renderAt depth =
      tag.render ++ ">" ++ renderColumn (depth + 1) (.element t cs :: ns) ++ lineAt depth ++
        "</" ++ tag.name ++ ">" := by
  simp only [Node.renderAt, renderColumn, String.append_assoc]

/-- **Elements in an element are read one after the other**, and what is read of them stands in
it. -/
theorem readsAs_column {tag : Tag} (htag : tag.Legible) {ns ms : List Node}
    (h : List.Forall₂ Node.ReadsAs ns ms) (helements : ∀ n ∈ ns, ∃ t cs, n = .element t cs) :
    (Node.element tag ns).ReadsAs (.element tag ms) := by
  intro depth r opened roots hr rest
  cases ns with
  | nil =>
    obtain rfl := List.forall₂_nil_left_iff.1 h
    have hchars : ((Node.element tag []).renderAt depth).toList ++ rest =
        tag.render.toList ++ ' ' :: '/' :: '>' :: rest := by
      rw [Node.renderAt, String.toList_append, List.append_assoc]
      rfl
    rw [hchars]
    exact readAll_closed hr htag rest
  | cons n ns =>
    obtain ⟨t, cs, rfl⟩ := helements n List.mem_cons_self
    have hchars : ((Node.element tag (.element t cs :: ns)).renderAt depth).toList ++ rest =
        tag.render.toList ++ '>' :: ((renderColumn (depth + 1) (.element t cs :: ns)).toList ++
          ((lineAt depth).toList ++ '<' :: '/' :: (tag.name.toList ++ '>' :: rest))) := by
      rw [renderAt_column depth tag]
      simp only [String.toList_append, List.append_assoc]
      rfl
    obtain ⟨run, hcolumn⟩ := readAll_column (depth + 1) h
      ⟨⟨"", tag.name⟩, tag, (among opened roots []).spaces, []⟩ opened roots []
      ((lineAt depth).toList ++ '<' :: '/' :: (tag.name.toList ++ '>' :: rest))
    rw [hchars, readAll_opening hr htag, hcolumn, readAll_blanks (all_isSpace_lineAt depth),
      readAll_closing rfl (endRun_among _ _ _) htag.name rfl, List.append_nil,
      List.reverse_reverse]

/-- A run of text that ends becomes a node, unless it is all blank. -/
theorem endRun_inText (e : OpenElement) (opened : List OpenElement) (roots : List Node)
    (content : String) :
    ((among (e :: opened) roots []).inText content.toList.reverse).endRun =
      among ({ e with children := readText content ++ e.children } :: opened) roots [] := by
  rw [readText]
  cases hall : content.toList.all isSpace with
  | true =>
    simp only [endRun, inText, List.all_reverse, hall, Bool.or_true, if_true]
    rfl
  | false =>
    have hempty : content.toList.reverse.isEmpty = false := by
      rw [Bool.eq_false_iff]
      intro hnil
      rw [List.isEmpty_iff, List.reverse_eq_nil_iff] at hnil
      rw [hnil] at hall
      cases hall
    simp only [endRun, inText, List.all_reverse, hall, hempty, Bool.or_false, Bool.false_eq_true,
      if_false, gathered_reverse]
    rfl

/-- **A text in an element is read as it was written**, or dropped if it is all blank. -/
theorem readsAs_line {tag : Tag} (htag : tag.Legible) {content : String}
    (hcontent : Printable content) :
    (Node.element tag [.text content]).ReadsAs (.element tag (readText content)) := by
  intro depth r opened roots hr rest
  have hchars : ((Node.element tag [.text content]).renderAt depth).toList ++ rest =
      tag.render.toList ++ '>' :: ((escapeWith escapeInText content).toList ++
        '<' :: '/' :: (tag.name.toList ++ '>' :: rest)) := by
    rw [Node.renderAt, renderRow]
    simp only [String.toList_append, List.append_assoc]
    rfl
  have htext := readAll_text
    (r := among (⟨⟨"", tag.name⟩, tag, (among opened roots []).spaces, []⟩ :: opened) roots [])
    rfl rfl rfl hcontent ('/' :: (tag.name.toList ++ '>' :: rest))
  have hchildren : (readText content ++ []).reverse = readText content := by
    rw [readText]
    split <;> rfl
  rw [hchars, readAll_opening hr htag]
  refine htext.trans ((readAll_closing rfl (endRun_inText _ _ _ _) htag.name rfl rest).trans ?_)
  rw [hchildren]

/-- A legible tree is an element. -/
theorem Legible.exists_element {n : Node} (h : Legible n) : ∃ t cs, n = .element t cs := by
  cases h <;> exact ⟨_, _, rfl⟩

/-- **A legible tree is read as it was written.** -/
theorem Legible.readsBack {n : Node} (h : Legible n) : n.ReadsAs n := by
  induction h with
  | column htag hchildren ih =>
    exact readsAs_column htag (List.forall₂_same.2 ih) fun n hn => (hchildren n hn).exists_element
  | @line tag content htag hcontent hblank =>
    have hread : readText content = [.text content] := if_neg (Bool.eq_false_iff.1 hblank)
    have hline := readsAs_line htag hcontent
    rwa [hread] at hline

/-- An element is written with its tag first. -/
theorem exists_renderAt (depth : Nat) (tag : Tag) (children : List Node) :
    ∃ rest, (Node.element tag children).renderAt depth = tag.render ++ rest := by
  cases children with
  | nil => exact ⟨_, rfl⟩
  | cons n ns =>
    cases n <;> exact ⟨_, by rw [Node.renderAt]; simp only [String.append_assoc]; rfl⟩

/-- A document is read as what its root is read as. -/
theorem Node.ReadsAs.parse_render {tag : Tag} {children read : List Node}
    (h : (Node.element tag children).ReadsAs (.element tag read)) :
    parse (Node.render (.element tag children)) = some (tag, read) := by
  have hsource : Source.ofChars (Node.render (.element tag children)).toList =
      remaining ((Node.element tag children).renderAt 0).toList := by
    obtain ⟨rest, hrest⟩ := exists_renderAt 0 tag children
    rw [Node.render, hrest, String.toList_append, toList_render]
    rfl
  have hread := h 0 (show Reader.start.Leads [] [] from ⟨rfl, rfl⟩) []
  have hend : ((among [] [] []).add (.element tag read)).readAll (remaining []) =
      some [.element tag read] := by
    rw [Reader.readAll]
    rfl
  rw [List.append_nil] at hread
  rw [parse, hsource, hread, hend]
  rfl

/-- **A legible document is read as it was written.** -/
theorem parse_render {tag : Tag} {children : List Node} (h : Legible (.element tag children)) :
    parse (Node.render (.element tag children)) = some (tag, children) :=
  h.readsBack.parse_render

end Xml
end VisualBlocks

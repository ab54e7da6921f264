import VisualBlocks.Proofs.Workspace.Slots
import VisualBlocks.Workspace.Saved

/-!
# Sketches

A sketch is a block as it is drawn, with all that hangs on it: a tree, where a workspace keeps a list
of blocks with links.  In an input and below a block stands a block, a shadow, or a block over the
shadow that it hides.

A file says of a block what stands in it and then what hangs on it.  How it says the first is left
open (`Texts`), and so is how the shape of a block is described (`σ`).  Then **loading a sketch adds
its blocks, each before those that hang on it, and changes no other block** (`Sketch.load_saved`).
The block that is being filled has no parent until it is complete, so the way up from it is the block
alone, and no connection can close a circle.
-/

set_option autoImplicit false

namespace VisualBlocks
namespace Workspace

mutual

/-- A block as it is drawn, with all that hangs on it. -/
inductive Sketch (σ : Type) where
  | block (id type : String) (fields : List (String × String)) (shape : σ)
      (inputs : List (String × Held σ)) (next : Option (Held σ))

/-- What stands in an input or below a block: a block, a shadow, or a block over a shadow. -/
inductive Held (σ : Type) where
  | real (b : Sketch σ)
  | shadow (s : Sketch σ)
  | both (b s : Sketch σ)

end

variable {σ : Type}

namespace Sketch

/-- The identifier of the block. -/
def id : Sketch σ → String
  | .block id _ _ _ _ _ => id

/-- The type of the block. -/
def type : Sketch σ → String
  | .block _ type _ _ _ _ => type

/-- The texts in the fields of the block. -/
def fields : Sketch σ → List (String × String)
  | .block _ _ fields _ _ _ => fields

/-- The shape of the block. -/
def shape : Sketch σ → σ
  | .block _ _ _ shape _ _ => shape

/-- What stands in the inputs of the block. -/
def inputs : Sketch σ → List (String × Held σ)
  | .block _ _ _ _ inputs _ => inputs

/-- What stands below the block. -/
def next : Sketch σ → Option (Held σ)
  | .block _ _ _ _ _ next => next

end Sketch

/-- The block that counts. -/
def Held.seen : Held σ → Sketch σ
  | .real b => b
  | .shadow s => s
  | .both b _ => b

/-- Is the block that counts a shadow? -/
def Held.isShadow : Held σ → Bool
  | .shadow _ => true
  | _ => false

/-! ## The blocks of a sketch -/

/-- A sketch at its place: on the canvas, or on the block it hangs on. -/
structure Placed (σ : Type) where
  sketch : Sketch σ
  x : Int
  y : Int
  shadow : Bool
  parent : Option Parent

/-- The identifiers of the blocks in inputs. -/
def childIds (inputs : List (String × Held σ)) : List (String × String) :=
  inputs.map fun i => (i.1, i.2.seen.id)

/-- The block that a sketch says there is. -/
def Placed.block (mutation : σ → Table String) (p : Placed σ) : Block where
  type := p.sketch.type
  fields := .ofList p.sketch.fields
  inputs := .ofList (childIds p.sketch.inputs)
  mutation := mutation p.sketch.shape
  next := p.sketch.next.map fun held => held.seen.id
  id := p.sketch.id
  x := p.x
  y := p.y
  shadow := p.shadow
  parent := p.parent

mutual

/-- What hangs on a block, each block before those that hang on it. -/
def Sketch.hung : Sketch σ → List (Placed σ)
  | .block id _ _ _ inputs next => inInputs id inputs ++ inNext id next

/-- The block in a connection and what hangs on it. -/
def Held.placed (parent : Parent) : Held σ → List (Placed σ)
  | .real b => ⟨b, 0, 0, false, some parent⟩ :: b.hung
  | .shadow s => ⟨s, 0, 0, true, some parent⟩ :: s.hung
  | .both b _ => ⟨b, 0, 0, false, some parent⟩ :: b.hung

/-- What hangs in the inputs of a block. -/
def inInputs (id : String) : List (String × Held σ) → List (Placed σ)
  | [] => []
  | (_, held) :: rest => held.placed ⟨id, .input⟩ ++ inInputs id rest

/-- What hangs below a block in its chain. -/
def inNext (id : String) : Option (Held σ) → List (Placed σ)
  | none => []
  | some held => held.placed ⟨id, .next⟩

end

theorem Held.placed_eq (parent : Parent) (held : Held σ) :
    held.placed parent = ⟨held.seen, 0, 0, held.isShadow, some parent⟩ :: held.seen.hung := by
  cases held <;> rfl

/-! ## What a file says of a sketch -/

mutual

/-- The content of the block in a file that says with `own` what stands in it. -/
def Sketch.saved (own : List (String × String) → σ → List Part) (shadow : Bool) :
    Sketch σ → Saved
  | .block id type fields shape inputs next =>
    .block type (some id) shadow (own fields shape ++ (inputParts own inputs ++ nextParts own next))

/-- The content of a connection. -/
def Held.saved (own : List (String × String) → σ → List Part) : Held σ → Saved
  | .real b => b.saved own false
  | .shadow s => s.saved own true
  | .both b _ => b.saved own false

/-- What a file says about the inputs of a block. -/
def inputParts (own : List (String × String) → σ → List Part) : List (String × Held σ) → List Part
  | [] => []
  | (name, held) :: rest => .input name (held.saved own) :: inputParts own rest

/-- What a file says about the chain below a block. -/
def nextParts (own : List (String × String) → σ → List Part) : Option (Held σ) → List Part
  | none => []
  | some held => [.next (held.saved own)]

end

/-! ## What stands in a block -/

/-- Does a part say what stands in the block itself? -/
def Part.isText : Part → Bool
  | .field _ _ => true
  | .mutation _ _ => true
  | _ => false

/-- The block with one more text. -/
def Part.fill (b : Block) : Part → Block
  | .field name text => { b with fields := b.fields.set name text }
  | .mutation key text => { b with mutation := b.mutation.set key text }
  | _ => b

theorem Part.fill_id (b : Block) (p : Part) : (p.fill b).id = b.id := by cases p <;> rfl

/-- A file says the fields of a block and a table for its shape. -/
structure Texts (own : List (String × String) → σ → List Part) (mutation : σ → Table String) :
    Prop where
  text : ∀ fields shape, ∀ p ∈ own fields shape, p.isText = true
  fill : ∀ fields shape (b : Block), b.fields = .empty → b.mutation = .empty →
    (own fields shape).foldl Part.fill b =
      { b with fields := .ofList fields, mutation := mutation shape }

/-- What a file says of fields that are texts. -/
def fieldParts (fields : List (String × String)) : List Part :=
  fields.map fun f => .field f.1 f.2

/-- What a file says of a shape that is described by texts. -/
def mutationParts (texts : List (String × String)) : List Part :=
  texts.map fun t => .mutation t.1 t.2

theorem isText_fieldParts (fields : List (String × String)) :
    ∀ p ∈ fieldParts fields, p.isText = true :=
  List.forall_mem_map.2 fun _ _ => rfl

theorem isText_mutationParts (texts : List (String × String)) :
    ∀ p ∈ mutationParts texts, p.isText = true :=
  List.forall_mem_map.2 fun _ _ => rfl

theorem foldl_fieldParts (fields : List (String × String)) (b : Block) :
    (fieldParts fields).foldl Part.fill b =
      { b with fields := fields.foldl (fun t f => t.set f.1 f.2) b.fields } := by
  induction fields generalizing b with
  | nil => rfl
  | cons f fields ih => exact ih _

theorem foldl_mutationParts (texts : List (String × String)) (b : Block) :
    (mutationParts texts).foldl Part.fill b =
      { b with mutation := texts.foldl (fun t e => t.set e.1 e.2) b.mutation } := by
  induction texts generalizing b with
  | nil => rfl
  | cons t texts ih => exact ih _

/-- Fields, and then texts for the shape. -/
theorem texts_fields_mutations {own : List (String × String) → σ → List Part}
    {entries : σ → List (String × String)}
    (h : ∀ fields shape, own fields shape = fieldParts fields ++ mutationParts (entries shape)) :
    Texts own fun shape => .ofList (entries shape) where
  text fields shape := by
    rw [h]
    exact List.forall_mem_append.2 ⟨isText_fieldParts _, isText_mutationParts _⟩
  fill fields shape b hfields hmutation := by
    rw [h, List.foldl_append, foldl_fieldParts, foldl_mutationParts, hfields, hmutation]
    rfl

/-- Texts for the shape, and then fields. -/
theorem texts_mutations_fields {own : List (String × String) → σ → List Part}
    {entries : σ → List (String × String)}
    (h : ∀ fields shape, own fields shape = mutationParts (entries shape) ++ fieldParts fields) :
    Texts own fun shape => .ofList (entries shape) where
  text fields shape := by
    rw [h]
    exact List.forall_mem_append.2 ⟨isText_mutationParts _, isText_fieldParts _⟩
  fill fields shape b hfields hmutation := by
    rw [h, List.foldl_append, foldl_mutationParts, foldl_fieldParts, hfields, hmutation]
    rfl

/-! ## A block in its place -/

section Place

variable {first last mid : List Block} {b c : Block}

/-- A block is found where it stands. -/
theorem get?_mid (h : ((first ++ b :: last).map (·.id)).Nodup) :
    (⟨first ++ b :: last⟩ : Workspace).get? b.id = some b :=
  get?_of_mem h (List.mem_append_right _ List.mem_cons_self)

theorem find_mid (h : ((first ++ b :: last).map (·.id)).Nodup) :
    (⟨first ++ b :: last⟩ : Workspace).find b.id = .ok b := by
  rw [find, get?_mid h]

/-- A block is changed where it stands. -/
theorem modify_mid (h : ((first ++ b :: last).map (·.id)).Nodup) (f : Block → Block) :
    (⟨first ++ b :: last⟩ : Workspace).modify b.id f = ⟨first ++ f b :: last⟩ := by
  rw [List.map_append, List.map_cons, List.nodup_middle, List.nodup_cons, List.mem_append,
    not_or] at h
  have hother {bs : List Block} (hbs : b.id ∉ bs.map (·.id)) :
      bs.map (fun a => if a.id == b.id then f a else a) = bs := by
    refine (List.map_congr_left fun a ha => if_neg fun heq => hbs ?_).trans (List.map_id' bs)
    exact List.mem_map.2 ⟨a, ha, beq_iff_eq.1 heq⟩
  rw [modify, List.map_append, List.map_cons, hother h.1.1, hother h.1.2,
    if_pos (beq_self_eq_true b.id)]

theorem change_mid (h : ((first ++ b :: last).map (·.id)).Nodup) (f : Block → Block) :
    (⟨first ++ b :: last⟩ : Workspace).change b.id f = .ok ⟨first ++ f b :: last⟩ := by
  rw [Workspace.change, find_mid h, ← modify_mid h f]
  rfl

/-- Above a block without a parent there is nothing. -/
theorem ascent_mid (h : ((first ++ b :: last).map (·.id)).Nodup) (hroot : b.parent = none) :
    (⟨first ++ b :: last⟩ : Workspace).ascent b.id = [b.id] := by
  have hlength : (first ++ b :: last).length = (first.length + last.length) + 1 := by
    rw [List.length_append, List.length_cons]
    omega
  rw [ascent, hlength, ascent.climb, get?_mid h, Option.bind_some, hroot]

/-- A block without a parent can hang on another one. -/
theorem checkAttach_mid (h : ((first ++ b :: mid ++ c :: last).map (·.id)).Nodup)
    (hb : b.parent = none) (hc : c.parent = none) :
    (⟨first ++ b :: mid ++ c :: last⟩ : Workspace).checkAttach b.id c.id = .ok b := by
  have hfind := find_mid h
  rw [List.append_assoc, List.cons_append] at h ⊢
  have hne : c.id ≠ b.id := by
    rw [List.map_append, List.map_cons, List.nodup_append, List.nodup_cons] at h
    exact fun heq => h.2.1.1 (heq ▸ List.mem_map_of_mem (List.mem_append_right _ List.mem_cons_self))
  have hfree : ([b.id] : List String).contains c.id = false := by
    rw [List.contains_cons, beq_eq_false_iff_ne.2 hne]
    rfl
  rw [List.append_assoc, List.cons_append] at hfind
  rw [checkAttach, find_mid h, ascent_mid h hb, hfree]
  simp only [bind, Except.bind, hfind, hc]
  rfl

/-- Two blocks are changed where they stand. -/
theorem modify_modify_mid (h : ((first ++ b :: mid ++ c :: last).map (·.id)).Nodup)
    (f g : Block → Block) (hf : (f b).id = b.id) :
    ((⟨first ++ b :: mid ++ c :: last⟩ : Workspace).modify b.id f).modify c.id g =
      ⟨first ++ f b :: mid ++ g c :: last⟩ := by
  have hids : (first ++ f b :: mid ++ c :: last).map (·.id) =
      (first ++ b :: mid ++ c :: last).map (·.id) := by
    simp only [List.map_append, List.map_cons, hf]
  rw [← modify_mid (hids ▸ h) g]
  congr 1
  rw [List.append_assoc, List.cons_append] at h ⊢
  rw [modify_mid h f, List.append_assoc, List.cons_append]

theorem connectInput_mid (h : ((first ++ b :: mid ++ c :: last).map (·.id)).Nodup)
    (hb : b.parent = none) (hc : c.parent = none) {name : String}
    (hname : b.inputs.contains name = false) :
    (⟨first ++ b :: mid ++ c :: last⟩ : Workspace).connectInput b.id name c.id =
      .ok ⟨first ++ { b with inputs := b.inputs.set name c.id } :: mid ++
        { c with parent := some ⟨b.id, .input⟩ } :: last⟩ := by
  have hmodify := modify_modify_mid h (fun b => { b with inputs := b.inputs.set name c.id })
    (fun c => { c with parent := some ⟨b.id, .input⟩ }) rfl
  rw [connectInput, checkAttach_mid h hb hc, ← hmodify]
  simp only [bind, Except.bind, hname]
  rfl

theorem connectNext_mid (h : ((first ++ b :: mid ++ c :: last).map (·.id)).Nodup)
    (hb : b.parent = none) (hc : c.parent = none) (hnext : b.next = none) :
    (⟨first ++ b :: mid ++ c :: last⟩ : Workspace).connectNext b.id c.id =
      .ok ⟨first ++ { b with next := some c.id } :: mid ++
        { c with parent := some ⟨b.id, .next⟩ } :: last⟩ := by
  have hmodify := modify_modify_mid h (fun b => { b with next := some c.id })
    (fun c => { c with parent := some ⟨b.id, .next⟩ }) rfl
  rw [connectNext, checkAttach_mid h hb hc, ← hmodify]
  simp only [bind, Except.bind, hnext]
  rfl

end Place

/-! ## Loading -/

/-- A block with a new identifier is added. -/
theorem add_of_free {w : Workspace} {id : String} (hne : id ≠ "") (hfree : id ∉ w.ids)
    (type : String) : w.add id type = .ok ⟨w.blocks ++ [Block.fresh id type]⟩ := by
  have hcontains : w.contains id = false := by
    rw [contains, Bool.eq_false_iff, Ne, get?_isSome_iff]
    exact hfree
  rw [add, if_neg hne, hcontains]
  rfl

theorem loadParts_append (w : Workspace) (id : String) (ps qs : List Part) :
    loadParts w id (ps ++ qs) = loadParts w id ps >>= fun w => loadParts w id qs := by
  induction ps generalizing w with
  | nil => rfl
  | cons p ps ih =>
    rw [List.cons_append, loadParts, loadParts]
    cases p.load w id with
    | error e => rfl
    | ok w' => exact ih w'

/-- Texts are filled in where the block stands. -/
theorem loadParts_texts {first last : List Block} {b : Block} {ps : List Part}
    (h : ((first ++ b :: last).map (·.id)).Nodup) (hps : ∀ p ∈ ps, p.isText = true) :
    loadParts ⟨first ++ b :: last⟩ b.id ps = .ok ⟨first ++ ps.foldl Part.fill b :: last⟩ := by
  induction ps generalizing b with
  | nil => rfl
  | cons p ps ih =>
    have hload : p.load ⟨first ++ b :: last⟩ b.id = .ok ⟨first ++ p.fill b :: last⟩ := by
      have hp := hps p List.mem_cons_self
      cases p with
      | field name text => rw [Part.load, setField, change_mid h]; rfl
      | mutation key text => rw [Part.load, setMutation, change_mid h]; rfl
      | input name child => cases hp
      | next child => cases hp
      | fault e => cases hp
    have hids : ((first ++ p.fill b :: last).map (·.id)).Nodup := by
      simpa only [List.map_append, List.map_cons, p.fill_id] using h
    have hrest := ih hids fun q hq => hps q (List.mem_cons_of_mem p hq)
    rw [p.fill_id] at hrest
    rw [loadParts, hload]
    exact hrest

/-- The block and those that hang on it. -/
def Sketch.all (s : Sketch σ) : List (Sketch σ) := s :: s.hung.map (·.sketch)

theorem Held.sketch_placed (parent : Parent) (held : Held σ) :
    (held.placed parent).map (·.sketch) = held.seen.all := by
  rw [held.placed_eq]
  rfl

/-- The block has an identifier, and each of its inputs has a name of its own. -/
def Sketch.Legal (s : Sketch σ) : Prop := s.id ≠ "" ∧ (s.inputs.map (·.1)).Nodup

/-- The sketches are legal, and their identifiers differ from those that are taken and from each
other. -/
def Fits (taken : List String) (ss : List (Sketch σ)) : Prop :=
  (taken ++ ss.map Sketch.id).Nodup ∧ ∀ s ∈ ss, s.Legal

instance (s : Sketch σ) : Decidable s.Legal := inferInstanceAs (Decidable (_ ∧ _))

instance (taken : List String) (ss : List (Sketch σ)) : Decidable (Fits taken ss) :=
  inferInstanceAs (Decidable (_ ∧ _))

theorem fits_append {taken : List String} {ss ts : List (Sketch σ)} :
    Fits taken (ss ++ ts) ↔ Fits taken ss ∧ Fits (taken ++ ss.map Sketch.id) ts := by
  rw [Fits, Fits, Fits, List.map_append, ← List.append_assoc, List.forall_mem_append]
  constructor
  · rintro ⟨hnodup, hss, hts⟩
    exact ⟨⟨(List.nodup_append.1 hnodup).1, hss⟩, hnodup, hts⟩
  · rintro ⟨⟨-, hss⟩, hnodup, hts⟩
    exact ⟨hnodup, hss, hts⟩

theorem Fits.nodup {taken : List String} {ss : List (Sketch σ)} (h : Fits taken ss) :
    taken.Nodup :=
  (List.nodup_append.1 h.1).1

section Load

variable {own : List (String × String) → σ → List Part} {mutation : σ → Table String}
  {first last : List Block} {b : Block}

theorem ids_append_blocks (mutation : σ → Table String) (blocks : List Block)
    (ps : List (Placed σ)) :
    (blocks ++ ps.map (Placed.block mutation)).map (·.id) =
      blocks.map (·.id) ++ (ps.map (·.sketch)).map Sketch.id := by
  rw [List.map_append, List.map_map, List.map_map]
  rfl

/-- A block that is being loaded: at the origin and without a parent. -/
def loading (id type : String) (shadow : Bool) (fields mutation inputs : Table String)
    (next : Option String) : Block :=
  ⟨⟨type, fields, inputs, mutation, next⟩, id, 0, 0, shadow, none⟩

theorem nodup_loaded {s : Sketch σ} {shadow : Bool} {blocks : List Block}
    (hfits : Fits (blocks.map (·.id)) s.all) :
    ((blocks ++ Placed.block mutation ⟨s, 0, 0, shadow, none⟩ ::
      s.hung.map (Placed.block mutation)).map (·.id)).Nodup := by
  have hids := ids_append_blocks mutation blocks (⟨s, 0, 0, shadow, none⟩ :: s.hung)
  rw [List.map_cons] at hids
  rw [hids]
  exact hfits.1

/-- A block that has been loaded is plugged in: it stays in its place and gets a parent. -/
theorem connectInput_placed (mutation : σ → Table String) {held : Held σ} {name : String}
    (hfits : Fits ((first ++ b :: last).map (·.id)) held.seen.all)
    (hroot : b.parent = none) (hfree : b.inputs.contains name = false) :
    (⟨first ++ b :: last ++ (⟨held.seen, 0, 0, held.isShadow, none⟩ :: held.seen.hung).map
      (Placed.block mutation)⟩ : Workspace).connectInput b.id name held.seen.id =
    .ok ⟨first ++ { b with inputs := b.inputs.set name held.seen.id } :: (last ++
      (held.placed ⟨b.id, .input⟩).map (Placed.block mutation))⟩ := by
  rw [held.placed_eq, ← List.cons_append, ← List.append_assoc]
  exact connectInput_mid (nodup_loaded hfits) hroot rfl hfree

/-- A block that has been loaded is hung below: it stays in its place and gets a parent. -/
theorem connectNext_placed (mutation : σ → Table String) {held : Held σ}
    (hfits : Fits ((first ++ b :: last).map (·.id)) held.seen.all)
    (hroot : b.parent = none) (hend : b.next = none) :
    (⟨first ++ b :: last ++ (⟨held.seen, 0, 0, held.isShadow, none⟩ :: held.seen.hung).map
      (Placed.block mutation)⟩ : Workspace).connectNext b.id held.seen.id =
    .ok ⟨first ++ { b with next := some held.seen.id } :: (last ++
      (held.placed ⟨b.id, .next⟩).map (Placed.block mutation))⟩ := by
  rw [held.placed_eq, ← List.cons_append, ← List.append_assoc]
  exact connectNext_mid (nodup_loaded hfits) hroot rfl hend

/-- A new block is made and its texts are filled in. -/
theorem load_own (htexts : Texts own mutation) {w : Workspace} {id : String} (hne : id ≠ "")
    (hnodup : (w.ids ++ [id]).Nodup) (type : String) (shadow : Bool)
    (fields : List (String × String)) (shape : σ) (parts : List Part) :
    (Saved.block type (some id) shadow (own fields shape ++ parts)).load w =
      (loadParts ⟨w.blocks ++
        [loading id type shadow (.ofList fields) (mutation shape) .empty none]⟩ id parts).map
          (id, ·) := by
  have hfree : id ∉ w.ids :=
    (List.disjoint_of_nodup_append hnodup · (List.mem_singleton_self id))
  have hnew (b : Block) (hb : b.id = id) : ((w.blocks ++ [b]).map (·.id)).Nodup := by
    rw [List.map_append, List.map_singleton, hb]
    exact hnodup
  have hshadow : (⟨w.blocks ++ [Block.fresh id type]⟩ : Workspace).modify id
      (fun b => { b with shadow }) =
        ⟨w.blocks ++ [loading id type shadow .empty .empty .empty none]⟩ :=
    modify_mid (hnew (Block.fresh id type) rfl) _
  have htext : loadParts ⟨w.blocks ++ [loading id type shadow .empty .empty .empty none]⟩ id
      (own fields shape) = .ok ⟨w.blocks ++
        [loading id type shadow (.ofList fields) (mutation shape) .empty none]⟩ := by
    have hfill := htexts.fill fields shape (loading id type shadow .empty .empty .empty none)
      rfl rfl
    exact (loadParts_texts (hnew _ rfl) (htexts.text fields shape)).trans (hfill ▸ rfl)
  rw [Saved.load, Option.getD_some, add_of_free hne hfree type]
  simp only [edited, bind, Except.bind, hshadow, loadParts_append, htext]
  rfl

mutual

/-- **Loading a sketch adds its blocks**, the first one without a parent. -/
theorem Sketch.load_saved (htexts : Texts own mutation) (shadow : Bool) : (s : Sketch σ) →
    {w : Workspace} → (hfits : Fits w.ids s.all) →
    (s.saved own shadow).load w =
      .ok (s.id, ⟨w.blocks ++ (⟨s, 0, 0, shadow, none⟩ :: s.hung).map (Placed.block mutation)⟩)
  | .block id type fields shape inputs next, w, hfits => by
    have hsketches : (Sketch.block id type fields shape inputs next).all =
        [.block id type fields shape inputs next] ++ ((inInputs id inputs).map (·.sketch) ++
          (inNext id next).map (·.sketch)) := by
      rw [Sketch.all, Sketch.hung, List.map_append]
      rfl
    rw [hsketches, fits_append, fits_append] at hfits
    obtain ⟨hself, hinputs, hnext⟩ := hfits
    obtain ⟨hne, hnames⟩ : id ≠ "" ∧ (inputs.map Prod.fst).Nodup :=
      hself.2 _ (List.mem_singleton_self _)
    -- The block without links, then with what is in its inputs, then complete.
    have hids (b : Block) (hb : b.id = id) : (w.blocks ++ [b]).map (·.id) = w.ids ++ [id] := by
      rw [List.map_append, List.map_singleton, hb]
      rfl
    have hplug : loadParts ⟨w.blocks ++
        [loading id type shadow (.ofList fields) (mutation shape) .empty none]⟩ id
        (inputParts own inputs) = .ok ⟨w.blocks ++ loading id type shadow (.ofList fields)
          (mutation shape) (.ofList (childIds inputs)) none ::
            (inInputs id inputs).map (Placed.block mutation)⟩ :=
      loadParts_inputParts htexts inputs (b := loading id type shadow _ _ .empty none)
        ((hids (loading id type shadow _ _ _ none) rfl).symm ▸ hinputs) rfl hnames fun _ _ => rfl
    have hhang : loadParts ⟨w.blocks ++ loading id type shadow (.ofList fields)
          (mutation shape) (.ofList (childIds inputs)) none ::
            (inInputs id inputs).map (Placed.block mutation)⟩ id
        (nextParts own next) = .ok ⟨w.blocks ++ loading id type shadow (.ofList fields)
          (mutation shape) (.ofList (childIds inputs)) (next.map fun held => held.seen.id) ::
            ((inInputs id inputs).map (Placed.block mutation) ++
              (inNext id next).map (Placed.block mutation))⟩ := by
      refine loadParts_nextParts htexts next (b := loading id type shadow _ _ _ none) ?_ rfl rfl
      rw [List.append_cons, ids_append_blocks, hids (loading id type shadow _ _ _ none) rfl]
      exact hnext
    rw [Sketch.saved, load_own htexts hne hself.1, loadParts_append, hplug, Sketch.hung,
      List.map_cons, List.map_append]
    simp only [bind, Except.bind, hhang]
    rfl

theorem Held.load_saved (htexts : Texts own mutation) : (held : Held σ) →
    {w : Workspace} → (hfits : Fits w.ids held.seen.all) →
    (held.saved own).load w = .ok (held.seen.id, ⟨w.blocks ++
      (⟨held.seen, 0, 0, held.isShadow, none⟩ :: held.seen.hung).map (Placed.block mutation)⟩)
  | .real b, _, hfits => b.load_saved htexts false hfits
  | .shadow s, _, hfits => s.load_saved htexts true hfits
  | .both b _, _, hfits => b.load_saved htexts false hfits

/-- The inputs are filled one after the other. -/
theorem loadParts_inputParts (htexts : Texts own mutation) : (inputs : List (String × Held σ)) →
    {first last : List Block} → {b : Block} →
    (hfits : Fits ((first ++ b :: last).map (·.id)) ((inInputs b.id inputs).map (·.sketch))) →
    (hroot : b.parent = none) → (hnames : (inputs.map (·.1)).Nodup) →
    (hfree : ∀ i ∈ inputs, b.inputs.contains i.1 = false) →
    loadParts ⟨first ++ b :: last⟩ b.id (inputParts own inputs) = .ok ⟨first ++
      { b with inputs := (childIds inputs).foldl (fun t e => t.set e.1 e.2) b.inputs } ::
        (last ++ (inInputs b.id inputs).map (Placed.block mutation))⟩
  | [], first, last, b, _, _, _, _ => by
    rw [inInputs, List.map_nil, List.append_nil]
    rfl
  | (name, held) :: rest, first, last, b, hfits, hroot, hnames, hfree => by
    have hsketches : (inInputs b.id ((name, held) :: rest)).map (·.sketch) =
        held.seen.all ++ (inInputs b.id rest).map (·.sketch) := by
      rw [inInputs, List.map_append, held.sketch_placed]
    rw [hsketches, fits_append] at hfits
    obtain ⟨hheld, hrest⟩ := hfits
    rw [List.map_cons, List.nodup_cons] at hnames
    have hload := held.load_saved htexts (w := ⟨first ++ b :: last⟩) hheld
    have hconnect := connectInput_placed mutation hheld hroot
      (hfree _ List.mem_cons_self)
    have hids : (first ++ { b with inputs := b.inputs.set name held.seen.id } :: (last ++
          (held.placed ⟨b.id, .input⟩).map (Placed.block mutation))).map (·.id) =
        (first ++ b :: last).map (·.id) ++ held.seen.all.map Sketch.id := by
      rw [← held.sketch_placed ⟨b.id, .input⟩, ← ids_append_blocks mutation]
      simp only [List.map_append, List.map_cons, List.append_assoc, List.cons_append]
    rw [← hids] at hrest
    have hmore := loadParts_inputParts htexts rest hrest hroot hnames.2 fun i hi => by
      have hne : i.1 ≠ name := fun heq => hnames.1 (heq ▸ List.mem_map.2 ⟨i, hi, rfl⟩)
      rw [Table.contains, Table.get?_set, if_neg hne]
      exact hfree i (List.mem_cons_of_mem _ hi)
    rw [inputParts, loadParts, Part.load, hload, inInputs, List.map_append, ← List.append_assoc]
    simp only [bind, Except.bind, hconnect, edited]
    exact hmore

/-- What stands below is hung on. -/
theorem loadParts_nextParts (htexts : Texts own mutation) : (next : Option (Held σ)) →
    {first last : List Block} → {b : Block} →
    (hfits : Fits ((first ++ b :: last).map (·.id)) ((inNext b.id next).map (·.sketch))) →
    (hroot : b.parent = none) → (hend : b.next = none) →
    loadParts ⟨first ++ b :: last⟩ b.id (nextParts own next) = .ok ⟨first ++
      { b with next := next.map fun held => held.seen.id } ::
        (last ++ (inNext b.id next).map (Placed.block mutation))⟩
  | none, first, last, b, _, _, hend => by
    rw [inNext, List.map_nil, List.append_nil, Option.map_none, ← hend]
    rfl
  | some held, first, last, b, hfits, hroot, hend => by
    rw [inNext, held.sketch_placed] at hfits
    have hload := held.load_saved htexts (w := ⟨first ++ b :: last⟩) hfits
    have hconnect := connectNext_placed mutation hfits hroot hend
    rw [nextParts, loadParts, Part.load, hload]
    simp only [bind, Except.bind, hconnect, edited]
    rfl

end

end Load

end Workspace
end VisualBlocks

import VisualBlocks.Proofs.Number.Truncation
import VisualBlocks.Proofs.Workspace.ReadingOrder
import VisualBlocks.Proofs.Workspace.Sketch

/-!
# A canvas

A canvas holds sketches at places.  **Loading it makes the blocks of its sketches and no others**
(`ofRoots_canvas`), and the blocks without a parent are then the sketches themselves, **in reading
order and, at one place, in the order in which the canvas lists them** (`exists_order`).
-/

set_option autoImplicit false

namespace VisualBlocks
namespace Workspace

variable {σ : Type}

/-- A sketch at its place on the canvas. -/
structure Rooted (σ : Type) where
  sketch : Sketch σ
  x : Int
  y : Int

/-- The block and those that hang on it. -/
def Rooted.placed (r : Rooted σ) : List (Placed σ) :=
  ⟨r.sketch, r.x, r.y, false, none⟩ :: r.sketch.hung

/-- Does the place fit 64 bits? -/
def Rooted.InRange (r : Rooted σ) : Prop :=
  (-2 ^ 63 ≤ r.x ∧ r.x < 2 ^ 63) ∧ -2 ^ 63 ≤ r.y ∧ r.y < 2 ^ 63

instance (r : Rooted σ) : Decidable r.InRange := inferInstanceAs (Decidable (_ ∧ _))

/-- The sketch at its place as it is read from a file, where the place is a double and is cut to an
integer. -/
def Rooted.asRead (r : Rooted σ) : Rooted σ :=
  ⟨r.sketch, Number.truncate (Float.ofInt r.x), Number.truncate (Float.ofInt r.y)⟩

theorem Rooted.asRead_eq {r : Rooted σ} (hx : Number.IsExact r.x) (hy : Number.IsExact r.y) :
    r.asRead = r := by
  rw [Rooted.asRead, Number.truncate_ofInt hx, Number.truncate_ofInt hy]

/-- A canvas with places that doubles can hold is read as it was drawn. -/
theorem map_asRead {canvas : List (Rooted σ)}
    (h : ∀ r ∈ canvas, Number.IsExact r.x ∧ Number.IsExact r.y) :
    canvas.map Rooted.asRead = canvas :=
  (List.map_congr_left fun r hr => r.asRead_eq (h r hr).1 (h r hr).2).trans (List.map_id' canvas)

/-- All blocks of a canvas, each before those that hang on it. -/
def placedOn (canvas : List (Rooted σ)) : List (Placed σ) := canvas.flatMap Rooted.placed

/-- Every block of the canvas has an identifier of its own, and every input of a block a name of its
own. -/
def Legal (canvas : List (Rooted σ)) : Prop := Fits [] (canvas.flatMap fun r => r.sketch.all)

instance (canvas : List (Rooted σ)) : Decidable (Legal canvas) :=
  inferInstanceAs (Decidable (Fits _ _))

/-- The blocks of a canvas are those of its sketches. -/
theorem flatMap_all (canvas : List (Rooted σ)) :
    (canvas.flatMap fun r => r.sketch.all) = (placedOn canvas).map (·.sketch) := by
  rw [placedOn, List.map_flatMap]
  rfl

theorem Legal.asRead {canvas : List (Rooted σ)} (h : Legal canvas) :
    Legal (canvas.map Rooted.asRead) := by
  rw [Legal, List.flatMap_map]
  exact h

/-- What a file says of a sketch on the canvas. -/
def Rooted.root (own : List (String × String) → σ → List Part) (r : Rooted σ) : Root :=
  ⟨r.sketch.saved own false, r.x, r.y⟩

/-! ## Loading a canvas -/

section Load

variable {own : List (String × String) → σ → List Part} {mutation : σ → Table String}

theorem Rooted.load_root (htexts : Texts own mutation) {w : Workspace} (r : Rooted σ)
    (hfits : Fits w.ids r.sketch.all) :
    (r.root own).load w = .ok ⟨w.blocks ++ r.placed.map (Placed.block mutation)⟩ := by
  have hmove : (⟨w.blocks ++ (⟨r.sketch, 0, 0, false, none⟩ :: r.sketch.hung).map
      (Placed.block mutation)⟩ : Workspace).setPosition r.sketch.id r.x r.y =
        .ok ⟨w.blocks ++ r.placed.map (Placed.block mutation)⟩ :=
    change_mid (nodup_loaded hfits) fun b => { b with x := r.x, y := r.y }
  rw [Root.load, root, r.sketch.load_saved htexts false hfits]
  simp only [bind, Except.bind, hmove]
  rfl

theorem foldlM_load (htexts : Texts own mutation) (canvas : List (Rooted σ)) {w : Workspace}
    (hfits : Fits w.ids (canvas.flatMap fun r => r.sketch.all)) :
    (canvas.map (Rooted.root own)).foldlM Root.load w =
      .ok ⟨w.blocks ++ (placedOn canvas).map (Placed.block mutation)⟩ := by
  induction canvas generalizing w with
  | nil =>
    have hnone : w.blocks ++ (placedOn ([] : List (Rooted σ))).map (Placed.block mutation) =
        w.blocks := List.append_nil w.blocks
    rw [hnone]
    rfl
  | cons r rest ih =>
    rw [List.flatMap_cons, fits_append] at hfits
    have hids : (⟨w.blocks ++ r.placed.map (Placed.block mutation)⟩ : Workspace).ids =
        w.ids ++ r.sketch.all.map Sketch.id := ids_append_blocks mutation w.blocks r.placed
    have hrest := ih (hids.symm ▸ hfits.2)
    rw [List.map_cons, List.foldlM_cons, r.load_root htexts hfits.1]
    refine hrest.trans ?_
    rw [placedOn, placedOn, List.flatMap_cons, List.map_append, List.append_assoc]

/-- **Loading a canvas makes the blocks of its sketches.** -/
theorem ofRoots_canvas (htexts : Texts own mutation) {canvas : List (Rooted σ)}
    (hlegal : Legal canvas) :
    ofRoots (canvas.map (Rooted.root own)) =
      .ok ⟨(placedOn canvas).map (Placed.block mutation)⟩ :=
  foldlM_load htexts canvas hlegal

end Load

/-! ## Reading order -/

/-- Is the first of two sketches read before the second, or at the same place? -/
def Rooted.readsBefore (r s : Rooted σ) : Bool := r.y < s.y || (r.y == s.y && r.x ≤ s.x)

/-- From top to bottom, then from left to right, then in the order of the canvas. -/
def Precedes (r s : Rooted σ × ℕ) : Prop :=
  r.1.y < s.1.y ∨ r.1.y = s.1.y ∧ (r.1.x < s.1.x ∨ r.1.x = s.1.x ∧ r.2 < s.2)

mutual

/-- What hangs on a block has a parent. -/
theorem Sketch.parent_of_mem_hung : (s : Sketch σ) → ∀ p ∈ s.hung, p.parent.isNone = false
  | .block id _ _ _ inputs next => by
    rw [Sketch.hung]
    exact List.forall_mem_append.2 ⟨parent_of_mem_inInputs id inputs, parent_of_mem_inNext id next⟩

theorem Held.parent_of_mem_placed (parent : Parent) :
    (held : Held σ) → ∀ p ∈ held.placed parent, p.parent.isNone = false
  | .real b => List.forall_mem_cons.2 ⟨rfl, b.parent_of_mem_hung⟩
  | .shadow s => List.forall_mem_cons.2 ⟨rfl, s.parent_of_mem_hung⟩
  | .both b _ => List.forall_mem_cons.2 ⟨rfl, b.parent_of_mem_hung⟩

theorem parent_of_mem_inInputs (id : String) :
    (inputs : List (String × Held σ)) → ∀ p ∈ inInputs id inputs, p.parent.isNone = false
  | [] => nofun
  | (_, held) :: rest => List.forall_mem_append.2
    ⟨held.parent_of_mem_placed ⟨id, .input⟩, parent_of_mem_inInputs id rest⟩

theorem parent_of_mem_inNext (id : String) :
    (next : Option (Held σ)) → ∀ p ∈ inNext id next, p.parent.isNone = false
  | none => nofun
  | some held => held.parent_of_mem_placed ⟨id, .next⟩

end

/-- The block of a sketch on the canvas. -/
def Rooted.block (mutation : σ → Table String) (r : Rooted σ) : Block :=
  Placed.block mutation ⟨r.sketch, r.x, r.y, false, none⟩

/-- The blocks without a parent are those of the sketches themselves. -/
theorem filter_parent (mutation : σ → Table String) (canvas : List (Rooted σ)) :
    ((placedOn canvas).map (Placed.block mutation)).filter (fun b => b.parent.isNone) =
      canvas.map (Rooted.block mutation) := by
  induction canvas with
  | nil => rfl
  | cons r rest ih =>
    have hhung : (r.sketch.hung.map (Placed.block mutation)).filter
        (fun b => b.parent.isNone) = [] := by
      rw [List.filter_map, List.map_eq_nil_iff, List.filter_eq_nil_iff]
      exact fun p hp => Bool.eq_false_iff.1 (r.sketch.parent_of_mem_hung p hp)
    rw [placedOn, List.flatMap_cons, Rooted.placed, List.cons_append, List.map_cons,
      List.filter_cons_of_pos rfl, List.map_append, List.filter_append, hhung, List.nil_append]
    exact congrArg _ ih

theorem top_canvas (mutation : σ → Table String) (canvas : List (Rooted σ)) :
    (⟨(placedOn canvas).map (Placed.block mutation)⟩ : Workspace).top =
      (canvas.mergeSort Rooted.readsBefore).map fun r => r.sketch.id := by
  have hsort : (canvas.mergeSort Rooted.readsBefore).map (Rooted.block mutation) =
      (canvas.map (Rooted.block mutation)).mergeSort Block.readsBefore :=
    List.map_mergeSort fun _ _ _ _ => rfl
  rw [top, filter_parent, ← hsort, List.map_map]
  rfl

/-- **The blocks without a parent come in reading order**: sorted by their places, and at one place
as the canvas lists them. -/
theorem exists_order (mutation : σ → Table String) (canvas : List (Rooted σ)) :
    ∃ order : List (Rooted σ × ℕ), order.Perm canvas.zipIdx ∧ order.Pairwise Precedes ∧
      (⟨(placedOn canvas).map (Placed.block mutation)⟩ : Workspace).top =
        order.map fun r => r.1.sketch.id := by
  have hle {r s : Rooted σ} :
      r.readsBefore s = true ↔ r.y < s.y ∨ r.y = s.y ∧ r.x ≤ s.x := by
    rw [Rooted.readsBefore, Bool.or_eq_true, Bool.and_eq_true, decide_eq_true_iff, beq_iff_eq,
      decide_eq_true_iff]
  have htrans (r s t : Rooted σ) (hrs : r.readsBefore s = true) (hst : s.readsBefore t = true) :
      r.readsBefore t = true := by
    rw [hle] at hrs hst ⊢
    omega
  have htotal (r s : Rooted σ) : (r.readsBefore s || s.readsBefore r) = true := by
    rw [Bool.or_eq_true, hle, hle]
    omega
  have hperm := List.mergeSort_perm canvas.zipIdx (List.zipIdxLE Rooted.readsBefore)
  refine ⟨_, hperm, ?_, ?_⟩
  · have hsorted := List.pairwise_mergeSort (List.zipIdxLE_trans htrans)
      (List.zipIdxLE_total htotal) canvas.zipIdx
    have hindices : ((canvas.zipIdx.mergeSort (List.zipIdxLE Rooted.readsBefore)).map
        Prod.snd).Nodup := by
      rw [(hperm.map Prod.snd).nodup_iff, List.zipIdx_map_snd]
      exact List.nodup_range' 1
    refine (hsorted.and (List.pairwise_map.1 hindices)).imp fun {r s} h => ?_
    obtain ⟨hrs, hne⟩ := h
    rw [Precedes]
    rw [List.zipIdxLE] at hrs
    split at hrs
    · next hbefore =>
      have hplace := hle.1 hbefore
      split at hrs
      · have hindex := of_decide_eq_true hrs
        omega
      · next hafter =>
        have hplace' := hle.not.1 hafter
        omega
    · cases hrs
  · rw [top_canvas, ← List.mergeSort_zipIdx, List.map_map]
    rfl

end Workspace
end VisualBlocks

import VisualBlocks.Proofs.Workspace.Canvas

/-!
# Sorted sketches

An object has its members in ascending order of their names, so a file in JSON lists the fields and
the inputs of a block in this order (`Sketch.sorted`), whatever order they have in the sketch.  The
loader then meets the blocks in another order.  **It makes the same blocks** (`perm_blocks_sorted`),
and **those without a parent stay in reading order** (`top_sorted`).
-/

set_option autoImplicit false

namespace VisualBlocks
namespace Workspace

variable {σ : Type}

/-! ## Sorting -/

mutual

/-- The sketch with fields and inputs in ascending order, everywhere in it. -/
def Sketch.sorted : Sketch σ → Sketch σ
  | .block id type fields shape inputs next =>
    .block id type (Table.ofList fields).entries shape (Table.ofList (sortedInputs inputs)).entries
      (sortedNext next)

/-- What stands in a connection, sorted. -/
def Held.sorted : Held σ → Held σ
  | .real b => .real b.sorted
  | .shadow s => .shadow s.sorted
  | .both b s => .both b.sorted s.sorted

/-- What stands in each input, sorted. -/
def sortedInputs : List (String × Held σ) → List (String × Held σ)
  | [] => []
  | (name, held) :: rest => (name, held.sorted) :: sortedInputs rest

/-- The chain below a block, sorted. -/
def sortedNext : Option (Held σ) → Option (Held σ)
  | none => none
  | some held => some held.sorted

end

/-- The sketch at its place, sorted. -/
def Rooted.sorted (r : Rooted σ) : Rooted σ := { r with sketch := r.sketch.sorted }

/-- The block at its place, with a sorted sketch. -/
def Placed.sorted (p : Placed σ) : Placed σ := { p with sketch := p.sketch.sorted }

theorem Sketch.id_sorted (s : Sketch σ) : s.sorted.id = s.id := by
  cases s
  rw [sorted]
  rfl

theorem Held.seen_sorted (held : Held σ) : held.sorted.seen = held.seen.sorted := by
  cases held <;> rw [sorted] <;> rfl

theorem sortedInputs_eq (inputs : List (String × Held σ)) :
    sortedInputs inputs = inputs.map (Prod.map id Held.sorted) := by
  induction inputs with
  | nil => rw [sortedInputs, List.map_nil]
  | cons i rest ih =>
    rw [sortedInputs, ih]
    rfl

theorem names_sortedInputs (inputs : List (String × Held σ)) :
    (sortedInputs inputs).map (·.1) = inputs.map (·.1) := by
  rw [sortedInputs_eq, List.map_map]
  rfl

/-! ## The same blocks -/

/-- The inputs of the sorted sketch hold the blocks that those of the sketch hold. -/
theorem childIds_sorted (inputs : List (String × Held σ)) :
    Table.ofList (childIds (Table.ofList (sortedInputs inputs)).entries) =
      Table.ofList (childIds inputs) := by
  have hids (held : Held σ) : held.sorted.seen.id = held.seen.id := by
    rw [held.seen_sorted, Sketch.id_sorted]
  have hchild : (sortedInputs inputs).map (Prod.map id fun held => held.seen.id) =
      childIds inputs := by
    rw [sortedInputs_eq, List.map_map]
    exact List.map_congr_left fun i _ => congrArg (Prod.mk i.1) (hids i.2)
  have hentries := Table.map_entries_ofList (fun held : Held σ => held.seen.id) (sortedInputs inputs)
  rw [hchild] at hentries
  exact (congrArg Table.ofList hentries).trans (Table.ofList_entries_ofList _)

/-- **Sorting does not change a block.** -/
theorem Placed.block_sorted (mutation : σ → Table String) (p : Placed σ) :
    p.sorted.block mutation = p.block mutation := by
  obtain ⟨⟨id, type, fields, shape, inputs, next⟩, x, y, shadow, parent⟩ := p
  have hnext : (sortedNext next).map (fun held => held.seen.id) =
      next.map fun held => held.seen.id := by
    cases next with
    | none => rw [sortedNext]
    | some held => rw [sortedNext, Option.map_some, Option.map_some, held.seen_sorted, Sketch.id_sorted]
  simp only [Placed.sorted, Sketch.sorted, Placed.block, Sketch.fields, Sketch.inputs, Sketch.next,
    Sketch.shape, Table.ofList_entries_ofList, childIds_sorted, hnext]
  rfl

theorem inInputs_eq (id : String) (inputs : List (String × Held σ)) :
    inInputs id inputs = inputs.flatMap fun i => i.2.placed ⟨id, .input⟩ := by
  induction inputs with
  | nil => rfl
  | cons i rest ih => rw [inInputs, ih, List.flatMap_cons]

-- One induction for the four kinds of trees; the sorting of the inputs is undone at each block.
mutual

/-- On the sorted sketch hang the blocks that hang on the sketch. -/
theorem Sketch.perm_hung_sorted : (s : Sketch σ) → (∀ b ∈ s.all, b.Legal) →
    s.sorted.hung.Perm (s.hung.map Placed.sorted)
  | .block id type fields shape inputs next, h => by
    rw [Sketch.all, List.forall_mem_cons, Sketch.hung, List.forall_mem_map,
      List.forall_mem_append] at h
    obtain ⟨⟨-, hnames⟩, hinputs, hnext⟩ := h
    have hentries : (Table.ofList (sortedInputs inputs)).entries.Perm (sortedInputs inputs) :=
      Table.entries_ofList_perm (names_sortedInputs inputs ▸ hnames)
    have hperm : (inInputs id (Table.ofList (sortedInputs inputs)).entries).Perm
        (inInputs id (sortedInputs inputs)) := by
      rw [inInputs_eq, inInputs_eq]
      exact hentries.flatMap_right _
    rw [Sketch.sorted, Sketch.hung, Sketch.hung, List.map_append]
    exact (hperm.trans (perm_inInputs_sorted id inputs hinputs)).append
      (perm_inNext_sorted id next hnext)

theorem Held.perm_placed_sorted (parent : Parent) : (held : Held σ) →
    (∀ p ∈ held.placed parent, p.sketch.Legal) →
    (held.sorted.placed parent).Perm ((held.placed parent).map Placed.sorted)
  | .real b, h => by
    rw [Held.sorted]
    exact (b.perm_hung_sorted (List.forall_mem_map.2 h)).cons _
  | .shadow s, h => by
    rw [Held.sorted]
    exact (s.perm_hung_sorted (List.forall_mem_map.2 h)).cons _
  | .both b s, h => by
    rw [Held.sorted]
    exact (b.perm_hung_sorted (List.forall_mem_map.2 h)).cons _

theorem perm_inInputs_sorted (id : String) : (inputs : List (String × Held σ)) →
    (∀ p ∈ inInputs id inputs, p.sketch.Legal) →
    (inInputs id (sortedInputs inputs)).Perm ((inInputs id inputs).map Placed.sorted)
  | [], _ => by
    rw [sortedInputs]
    exact .refl _
  | (_, held) :: rest, h => by
    rw [inInputs, List.forall_mem_append] at h
    rw [sortedInputs, inInputs, inInputs, List.map_append]
    exact (held.perm_placed_sorted _ h.1).append (perm_inInputs_sorted id rest h.2)

theorem perm_inNext_sorted (id : String) : (next : Option (Held σ)) →
    (∀ p ∈ inNext id next, p.sketch.Legal) →
    (inNext id (sortedNext next)).Perm ((inNext id next).map Placed.sorted)
  | none, _ => by
    rw [sortedNext]
    exact .refl _
  | some held, h => by
    rw [sortedNext]
    exact held.perm_placed_sorted _ h

end

/-- **The sorted canvas has the blocks of the canvas.** -/
theorem perm_placedOn_sorted {canvas : List (Rooted σ)} (h : Legal canvas) :
    (placedOn (canvas.map Rooted.sorted)).Perm ((placedOn canvas).map Placed.sorted) := by
  have hplaced (r : Rooted σ) (hr : r ∈ canvas) :
      r.sorted.placed.Perm (r.placed.map Placed.sorted) :=
    (r.sketch.perm_hung_sorted fun b hb => h.2 b (List.mem_flatMap.2 ⟨r, hr, hb⟩)).cons _
  rw [placedOn, List.flatMap_map, placedOn, List.map_flatMap]
  exact List.Perm.flatMap_left canvas hplaced

theorem Sketch.Legal.sorted {s : Sketch σ} (h : s.Legal) : s.sorted.Legal := by
  refine ⟨s.id_sorted ▸ h.1, ?_⟩
  cases s
  rw [Sketch.sorted]
  exact Table.nodup_names_ofList _

/-- **A sorted canvas is legal if the canvas is.** -/
theorem Legal.sorted {canvas : List (Rooted σ)} (h : Legal canvas) :
    Legal (canvas.map Rooted.sorted) := by
  have hperm := perm_placedOn_sorted h
  rw [Legal, Fits, List.nil_append, flatMap_all, List.map_map] at h ⊢
  obtain ⟨hnodup, hlegal⟩ := h
  constructor
  · have hids : ((placedOn canvas).map Placed.sorted).map (Sketch.id ∘ fun p => p.sketch) =
        (placedOn canvas).map (Sketch.id ∘ fun p => p.sketch) := by
      rw [List.map_map]
      exact List.map_congr_left fun p _ => p.sketch.id_sorted
    rw [(hperm.map _).nodup_iff, hids]
    exact hnodup
  · rw [List.forall_mem_map] at hlegal ⊢
    intro p hp
    obtain ⟨q, hq, rfl⟩ := List.mem_map.1 (hperm.mem_iff.1 hp)
    exact (hlegal q hq).sorted

/-- Places are read as they are, sorted or not. -/
theorem map_asRead_sorted (canvas : List (Rooted σ)) :
    (canvas.map Rooted.sorted).map Rooted.asRead = (canvas.map Rooted.asRead).map Rooted.sorted := by
  rw [List.map_map, List.map_map]
  rfl

section Blocks

variable (mutation : σ → Table String) {canvas : List (Rooted σ)}

/-- **Sorting does not change which blocks there are.** -/
theorem perm_blocks_sorted (h : Legal canvas) :
    ((placedOn (canvas.map Rooted.sorted)).map (Placed.block mutation)).Perm
      ((placedOn canvas).map (Placed.block mutation)) := by
  have hsame : (placedOn canvas).map (Placed.block mutation ∘ Placed.sorted) =
      (placedOn canvas).map (Placed.block mutation) :=
    List.map_congr_left fun p _ => p.block_sorted mutation
  have hblocks := (perm_placedOn_sorted h).map (Placed.block mutation)
  rwa [List.map_map, hsame] at hblocks

/-- **The blocks without a parent stay in reading order.** -/
theorem top_sorted (canvas : List (Rooted σ)) :
    (⟨(placedOn (canvas.map Rooted.sorted)).map (Placed.block mutation)⟩ : Workspace).top =
      (⟨(placedOn canvas).map (Placed.block mutation)⟩ : Workspace).top := by
  have hsort : (canvas.mergeSort Rooted.readsBefore).map Rooted.sorted =
      (canvas.map Rooted.sorted).mergeSort Rooted.readsBefore :=
    List.map_mergeSort fun _ _ _ _ => rfl
  rw [top_canvas, top_canvas, ← hsort, List.map_map]
  exact List.map_congr_left fun r _ => r.sketch.id_sorted

end Blocks

end Workspace
end VisualBlocks

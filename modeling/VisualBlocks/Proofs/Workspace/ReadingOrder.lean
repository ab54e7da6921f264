import VisualBlocks.Proofs.Workspace.Reachable

/-!
# Reading order

The top-level blocks come from top to bottom, those at one height from left to right, and those at
one place in the order in which they were created.  The first two are what the blocks are sorted by;
the third holds because sorting is stable and the list of the blocks is in the order of creation.  So
**the order leaves nothing open**: of two top-level blocks one comes before the other
(`Ledger.Kept.pairwise_roots`).
-/

set_option autoImplicit false

namespace VisualBlocks

/-! ## Sorting -/

namespace Block

theorem readsBefore_iff {a b : Block} :
    a.readsBefore b = true ↔ a.y < b.y ∨ a.y = b.y ∧ a.x ≤ b.x := by
  rw [readsBefore, Bool.or_eq_true, Bool.and_eq_true, decide_eq_true_iff, beq_iff_eq,
    decide_eq_true_iff]

theorem readsBefore_trans (a b c : Block) (hab : a.readsBefore b = true)
    (hbc : b.readsBefore c = true) : a.readsBefore c = true := by
  rw [readsBefore_iff] at hab hbc ⊢
  omega

theorem readsBefore_total (a b : Block) : (a.readsBefore b || b.readsBefore a) = true := by
  rw [Bool.or_eq_true, readsBefore_iff, readsBefore_iff]
  omega

end Block

/-- **Sorting is stable**: what is all at one place is not sorted anew. -/
theorem filter_mergeSort {α : Type} {le : α → α → Bool}
    (htrans : ∀ a b c, le a b = true → le b c = true → le a c = true)
    (htotal : ∀ a b, (le a b || le b a) = true) {p : α → Bool}
    (hlevel : ∀ a b, p a = true → p b = true → le a b = true) (l : List α) :
    (l.mergeSort le).filter p = l.filter p := by
  have hpairwise : (l.filter p).Pairwise fun a b => le a b = true := by
    refine List.pairwise_of_forall_mem_list fun a ha b hb => ?_
    exact hlevel a b (List.mem_filter.1 ha).2 (List.mem_filter.1 hb).2
  have hsub := (List.sublist_mergeSort htrans htotal hpairwise List.filter_sublist).filter p
  rw [List.filter_filter] at hsub
  simp only [Bool.and_self] at hsub
  exact (hsub.eq_of_length ((List.mergeSort_perm l le).filter p).length_eq.symm).symm

namespace Workspace

/-- The top-level blocks in reading order. -/
def roots (w : Workspace) : List Block :=
  (w.blocks.filter fun b => b.parent.isNone).mergeSort Block.readsBefore

theorem roots_perm (w : Workspace) : w.roots.Perm (w.blocks.filter fun b => b.parent.isNone) :=
  List.mergeSort_perm _ _

/-- Blocks at one place are among the roots in the order in which they are listed. -/
theorem sublist_of_roots {w : Workspace} {a b : Block} (h : [a, b].Sublist w.roots)
    (hy : a.y = b.y) (hx : a.x = b.x) : [a, b].Sublist w.blocks := by
  have hlevel (c d : Block) (hc : (c.y == b.y && c.x == b.x) = true)
      (hd : (d.y == b.y && d.x == b.x) = true) : c.readsBefore d = true := by
    rw [Bool.and_eq_true, beq_iff_eq, beq_iff_eq] at hc hd
    rw [Block.readsBefore_iff]
    omega
  have hsub := h.filter fun c => c.y == b.y && c.x == b.x
  rw [roots, filter_mergeSort Block.readsBefore_trans Block.readsBefore_total hlevel] at hsub
  have hpair : [a, b].filter (fun c => c.y == b.y && c.x == b.x) = [a, b] := by
    simp [hy, hx]
  rw [hpair] at hsub
  exact (hsub.trans List.filter_sublist).trans List.filter_sublist

namespace Ledger

/-- Does a block come before another one: higher up, or at one height further left, or at one place
created earlier? -/
def Precedes (l : Ledger) (a b : Block) : Prop :=
  a.y < b.y ∨ a.y = b.y ∧ (a.x < b.x ∨ a.x = b.x ∧ l.number a.id < l.number b.id)

/-- **The top-level blocks are in reading order.** -/
theorem Kept.pairwise_roots {l : Ledger} (h : Kept l) :
    l.workspace.roots.Pairwise l.Precedes := by
  have hsorted := List.pairwise_mergeSort Block.readsBefore_trans Block.readsBefore_total
    (l.workspace.blocks.filter fun b => b.parent.isNone)
  have hnumbers := h.rising
  rw [ids, List.map_map, List.pairwise_map] at hnumbers
  refine List.pairwise_of_forall_sublist fun {a b} hpair => ?_
  rcases Block.readsBefore_iff.1 (hsorted.forall_sublist hpair) with hy | ⟨hy, hx⟩
  · exact .inl hy
  · refine .inr ⟨hy, ?_⟩
    rcases Int.lt_or_eq_of_le hx with hx | hx
    · exact .inl hx
    · exact .inr ⟨hx, hnumbers.forall_sublist (sublist_of_roots hpair hy hx)⟩

end Ledger
end Workspace
end VisualBlocks

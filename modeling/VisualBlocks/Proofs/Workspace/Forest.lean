import Mathlib.Data.List.Nodup
import VisualBlocks.Proofs.Generation.BlockTree
import VisualBlocks.Proofs.Workspace.Reachable

/-!
# The forest of a workspace

The blocks of a linked workspace form trees.  Each block without a parent is the root of one
(`Linked.exists_forest`), and **no block occurs twice** in them (`Linked.nodup_forest`): the way up
from a block is unique, so it leads to one root only.
-/

set_option autoImplicit false

namespace VisualBlocks

/-! ## Parts of trees -/

namespace BlockTree

/-- What is in the inputs, and what follows. -/
def parts (t : BlockTree) : List BlockTree := t.inputs.map (·.2) ++ t.next.toList

theorem mem_parts {c t : BlockTree} : c ∈ t.parts ↔ c.IsPart t := by
  rw [parts, List.mem_append, List.mem_map, Option.mem_toList, IsPart]
  refine or_congr ⟨?_, ?_⟩ Iff.rfl
  · rintro ⟨⟨socket, c⟩, hmem, rfl⟩
    exact ⟨socket, hmem⟩
  · rintro ⟨socket, hmem⟩
    exact ⟨(socket, c), hmem, rfl⟩

theorem inputBlocks_eq (inputs : List (String × BlockTree)) :
    inputBlocks inputs = (inputs.map (·.2)).flatMap blocks := by
  induction inputs with
  | nil => rfl
  | cons e es ih => rw [inputBlocks, List.map_cons, List.flatMap_cons, ih]

theorem nextBlocks_eq (next : Option BlockTree) : nextBlocks next = next.toList.flatMap blocks := by
  cases next with
  | none => rfl
  | some t => rw [nextBlocks, Option.toList_some, List.flatMap_singleton]

theorem blocks_eq_parts (t : BlockTree) : t.blocks = (t.id, t.node) :: t.parts.flatMap blocks := by
  rw [blocks_eq, inputBlocks_eq, nextBlocks_eq, parts, List.flatMap_append]

theorem ids_eq_parts (t : BlockTree) : t.ids = t.id :: t.parts.flatMap ids := by
  rw [ids, blocks_eq_parts, List.map_cons, List.map_flatMap]
  rfl

theorem parts_ids (t : BlockTree) :
    t.parts.map id = t.node.inputs.values ++ t.node.next.toList := by
  rw [parts, List.map_append, List.map_map, node, Table.values, List.map_map]
  cases t.next <;> rfl

end BlockTree

namespace Workspace

open BlockTree

variable {w : Workspace} {t c : BlockTree}

/-! ## Trees in a workspace -/

theorem node?_graph (w : Workspace) (id : String) :
    w.graph.node? id = (w.get? id).map (·.toNode) := by
  obtain ⟨blocks⟩ := w
  rw [Graph.node?, graph, get?]
  dsimp only
  induction blocks with
  | nil => rfl
  | cons b bs ih =>
    rw [List.map_cons, List.lookup_cons]
    by_cases hb : b.id = id
    · subst hb
      rw [beq_self_eq_true, List.find?_cons_of_pos (by rw [beq_self_eq_true])]
      rfl
    · rw [beq_false_of_ne (Ne.symm hb), List.find?_cons_of_neg (by rwa [beq_iff_eq])]
      exact ih

theorem exists_block_of_holds (h : w.graph.Holds t) {b : String × Node} (hb : b ∈ t.blocks) :
    ∃ block ∈ w.blocks, block.id = b.1 ∧ block.toNode = b.2 := by
  have hnode := h b hb
  rw [node?_graph] at hnode
  obtain ⟨block, hget, hblock⟩ := Option.map_eq_some_iff.1 hnode
  exact ⟨block, List.mem_of_find?_eq_some hget, get?_id hget, hblock⟩

theorem get?_of_holds (h : w.graph.Holds t) : ∃ b, w.get? t.id = some b ∧ b.toNode = t.node := by
  have hnode := h.node?
  rw [node?_graph] at hnode
  exact Option.map_eq_some_iff.1 hnode

/-- A part of a tree hangs on the root of the tree. -/
theorem Linked.parentOf_part (h : Linked w) (hheld : w.graph.Holds t) (hpart : c.IsPart t) :
    ∃ link, w.parentOf c.id = some ⟨t.id, link⟩ := by
  obtain ⟨b, hb, hnode⟩ := get?_of_holds hheld
  have hmem : c.id ∈ b.below := by
    have hids := List.mem_map_of_mem (f := BlockTree.id) (mem_parts.2 hpart)
    rw [parts_ids, ← hnode] at hids
    exact hids
  obtain ⟨link, hlink⟩ := mem_below.1 hmem
  rw [← hanging_of_get? hb, h.links] at hlink
  exact ⟨link, hlink⟩

/-- The root of a tree is above all its blocks. -/
theorem Linked.above (h : Linked w) (hheld : w.graph.Holds t) {x : String} (hx : x ∈ t.ids) :
    Above w t.id x := by
  generalize hn : t.blocks.length = n
  induction n using Nat.strongRecOn generalizing t with
  | _ n ih =>
    subst hn
    rw [ids_eq_parts] at hx
    rcases List.mem_cons.1 hx with rfl | hx
    · exact .refl
    · obtain ⟨c, hc, hx⟩ := List.mem_flatMap.1 hx
      have hpart := mem_parts.1 hc
      obtain ⟨link, hlink⟩ := h.parentOf_part hheld hpart
      exact Above.trans (.up hlink .refl)
        (ih _ hpart.length_lt (hheld.part hpart) hx rfl)

/-! ## No block occurs twice -/

/-- Trees whose roots are not above one another have no block in common. -/
theorem Linked.nodup_apart (h : Linked w) {ts : List BlockTree}
    (hheld : ∀ t ∈ ts, w.graph.Holds t) (hids : (ts.map BlockTree.id).Nodup)
    (hnodup : ∀ t ∈ ts, t.ids.Nodup)
    (hapart : ∀ c ∈ ts, ∀ d ∈ ts, Above w c.id d.id → c.id = d.id) :
    (ts.flatMap BlockTree.ids).Nodup := by
  rw [List.nodup_flatMap]
  refine ⟨hnodup, (List.pairwise_map.1 hids).imp_of_mem ?_⟩
  intro c d hc hd hne x hxc hxd
  rcases (h.above (hheld c hc) hxc).total (h.above (hheld d hd) hxd) with hcd | hdc
  · exact hne (hapart c hc d hd hcd)
  · exact hne (hapart d hd c hc hdc).symm

/-- **No block occurs twice in a tree.** -/
theorem Linked.nodup_tree (h : Linked w) (hheld : w.graph.Holds t) : t.ids.Nodup := by
  obtain ⟨rank, hrank⟩ := h.acyclic
  generalize hn : t.blocks.length = n
  induction n using Nat.strongRecOn generalizing t with
  | _ n ih =>
    subst hn
    have hheld' (c : BlockTree) (hc : c ∈ t.parts) : w.graph.Holds c := hheld.part (mem_parts.1 hc)
    have hlower (c : BlockTree) (hc : c ∈ t.parts) : rank c.id < rank t.id := by
      obtain ⟨link, hlink⟩ := h.parentOf_part hheld (mem_parts.1 hc)
      exact hrank _ _ hlink
    rw [ids_eq_parts, List.nodup_cons]
    refine ⟨fun hmem => ?_, h.nodup_apart hheld' ?_ (fun c hc => ?_) ?_⟩
    · obtain ⟨c, hc, hmem⟩ := List.mem_flatMap.1 hmem
      have hle := (h.above (hheld' c hc) hmem).rank_le hrank
      exact Nat.lt_irrefl _ (Nat.lt_of_le_of_lt hle (hlower c hc))
    · obtain ⟨b, hb, hnode⟩ := get?_of_holds hheld
      rw [parts_ids, ← hnode, List.nodup_append]
      have hinputs := h.distinct t.id .input
      have hnext := h.distinct t.id .next
      rw [hanging_of_get? hb] at hinputs hnext
      refine ⟨hinputs, hnext, fun x hx y hy => ?_⟩
      rintro rfl
      have hx : x ∈ w.hanging t.id .input := by rwa [hanging_of_get? hb]
      have hy : x ∈ w.hanging t.id .next := by rwa [hanging_of_get? hb]
      rw [h.links] at hx hy
      rw [hx] at hy
      cases hy
    · have hpart := mem_parts.1 hc
      exact ih _ hpart.length_lt (hheld.part hpart) rfl
    · intro c hc d hd habove
      rcases habove.eq_or_up with heq | ⟨p, hp, habove⟩
      · exact heq
      · obtain ⟨link, hlink⟩ := h.parentOf_part hheld (mem_parts.1 hd)
        obtain rfl := Option.some.inj (hp.symm.trans hlink)
        exact absurd (habove.rank_le hrank) (Nat.not_le_of_lt (hlower c hc))

/-! ## The forest -/

/-- The trees of the blocks without a parent, in reading order. -/
structure IsForest (w : Workspace) (forest : List BlockTree) : Prop where
  roots : forest.map BlockTree.id = w.top
  held : ∀ t ∈ forest, w.graph.Holds t

/-- The trees of what hangs on a block make the tree of the block. -/
theorem exists_tree_of_below {id : String} {b : Block} (hb : w.get? id = some b)
    (hbelow : ∀ child ∈ b.below, ∃ t : BlockTree, t.id = child ∧ w.graph.Holds t) :
    ∃ t : BlockTree, t.id = id ∧ w.graph.Holds t := by
  have hall (child : String) :
      ∃ t : BlockTree, child ∈ b.below → t.id = child ∧ w.graph.Holds t := by
    by_cases hchild : child ∈ b.below
    · obtain ⟨t, ht⟩ := hbelow child hchild
      exact ⟨t, fun _ => ht⟩
    · exact ⟨.mk "" "" .empty .empty [] none, fun hmem => absurd hmem hchild⟩
  choose tree htree using hall
  have hinput (e : String × String) (he : e ∈ b.inputs.entries) : e.2 ∈ b.below :=
    List.mem_append_left _ (List.mem_map_of_mem he)
  have hnext (n : String) (hn : n ∈ b.next) : n ∈ b.below :=
    List.mem_append_right _ (Option.mem_toList.2 hn)
  have hinputs : (b.inputs.entries.map fun e => (e.1, tree e.2)).map
      (fun e => (e.1, e.2.id)) = b.inputs.entries := by
    rw [List.map_map]
    refine (List.map_congr_left fun e he => ?_).trans (List.map_id _)
    exact Prod.ext rfl (htree e.2 (hinput e he)).1
  have hfollows : (b.next.map tree).map BlockTree.id = b.next := by
    cases hn : b.next with
    | none => rfl
    | some n => exact congrArg some (htree n (hnext n hn)).1
  let t : BlockTree := .mk id b.type b.fields b.mutation
    (b.inputs.entries.map fun e => (e.1, tree e.2)) (b.next.map tree)
  have hnode : t.node = b.toNode := by
    have ht : t.node = ⟨b.type, b.fields, ⟨(b.inputs.entries.map fun e => (e.1, tree e.2)).map
      fun e => (e.1, e.2.id)⟩, b.mutation, (b.next.map tree).map BlockTree.id⟩ := rfl
    rw [ht, hinputs, hfollows]
  refine ⟨t, rfl, fun blk hblk => ?_⟩
  rw [blocks_eq_parts] at hblk
  rcases List.mem_cons.1 hblk with rfl | hblk
  · have hid : t.id = id := rfl
    rw [node?_graph, hid, hb, hnode]
    rfl
  · obtain ⟨c, hc, hblk⟩ := List.mem_flatMap.1 hblk
    rcases List.mem_append.1 hc with hc | hc
    · obtain ⟨filled, hfilled, rfl⟩ := List.mem_map.1 hc
      obtain ⟨e, he, rfl⟩ := List.mem_map.1 hfilled
      exact (htree e.2 (hinput e he)).2 blk hblk
    · obtain ⟨n, hn, rfl⟩ := Option.map_eq_some_iff.1 (Option.mem_toList.1 hc)
      exact (htree n (hnext n hn)).2 blk hblk

/-- Each block of a linked workspace is the root of a tree. -/
theorem Linked.exists_tree (h : Linked w) {id : String} (hid : id ∈ w.ids) :
    ∃ t : BlockTree, t.id = id ∧ w.graph.Holds t := by
  obtain ⟨rank, hrank⟩ := h.acyclic
  generalize hn : rank id = n
  induction n using Nat.strongRecOn generalizing id with
  | _ n ih =>
    subst hn
    obtain ⟨b, hb⟩ := Option.isSome_iff_exists.1 (get?_isSome_iff.2 hid)
    refine exists_tree_of_below hb fun child hchild => ?_
    obtain ⟨link, hlink⟩ := mem_below.1 hchild
    rw [← hanging_of_get? hb, h.links] at hlink
    exact ih _ (hrank child _ hlink) (mem_ids_of_parentOf hlink) rfl

theorem top_perm (w : Workspace) :
    w.top.Perm ((w.blocks.filter fun b => b.parent.isNone).map (·.id)) :=
  (List.mergeSort_perm _ _).map _

theorem Linked.nodup_top (h : Linked w) : w.top.Nodup :=
  (top_perm w).nodup_iff.2 (h.nodup.sublist (List.filter_sublist.map _))

theorem Linked.root_of_mem_top (h : Linked w) {id : String} (hid : id ∈ w.top) :
    id ∈ w.ids ∧ w.parentOf id = none := by
  obtain ⟨b, hb, rfl⟩ := List.mem_map.1 ((top_perm w).mem_iff.1 hid)
  obtain ⟨hmem, hroot⟩ := List.mem_filter.1 hb
  have hget := get?_of_mem h.nodup hmem
  exact ⟨mem_ids_of_get? hget, by rw [parentOf_of_get? hget, Option.isNone_iff_eq_none.1 hroot]⟩

/-- **The blocks of a linked workspace form trees.** -/
theorem Linked.exists_forest (h : Linked w) : ∃ forest, w.IsForest forest := by
  have hall (ids : List String) (hids : ∀ id ∈ ids, id ∈ w.ids) :
      ∃ forest : List BlockTree, forest.map BlockTree.id = ids ∧
        ∀ t ∈ forest, w.graph.Holds t := by
    induction ids with
    | nil => exact ⟨[], rfl, nofun⟩
    | cons id ids ih =>
      rw [List.forall_mem_cons] at hids
      obtain ⟨t, rfl, hheld⟩ := h.exists_tree hids.1
      obtain ⟨forest, rfl, hforest⟩ := ih hids.2
      exact ⟨t :: forest, rfl, List.forall_mem_cons.2 ⟨hheld, hforest⟩⟩
  obtain ⟨forest, hroots, hheld⟩ := hall w.top fun id hid => (h.root_of_mem_top hid).1
  exact ⟨forest, hroots, hheld⟩

/-- **No block occurs twice in the trees of a linked workspace.** -/
theorem Linked.nodup_forest (h : Linked w) {forest : List BlockTree} (hforest : w.IsForest forest) :
    (forest.flatMap BlockTree.ids).Nodup := by
  refine h.nodup_apart hforest.held ?_ (fun t ht => h.nodup_tree (hforest.held t ht)) ?_
  · rw [hforest.roots]
    exact h.nodup_top
  · intro c _ d hd habove
    refine habove.eq_of_root (h.root_of_mem_top ?_).2
    rw [← hforest.roots]
    exact List.mem_map_of_mem hd

end Workspace
end VisualBlocks

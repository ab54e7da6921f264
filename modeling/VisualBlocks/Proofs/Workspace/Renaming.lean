import Mathlib.Data.Fintype.EquivFin
import Mathlib.SetTheory.Cardinal.Arithmetic
import VisualBlocks.Proofs.Workspace.Assembly
import VisualBlocks.Proofs.Workspace.ReadingOrder

/-!
# Other names for the blocks

`Workspace.rename` gives each block another name, wherever the name stands: at the block itself, in
the inputs, below a block, and at the parent.  **If no two blocks get one name, and none gets the
empty name, then a workspace that can be built can be built with the other names as well**
(`Proper.rename`), and in any order (`Proper.perm`).

The reading order does not depend on the names (`roots_rename`).  It depends on the order in which
the blocks are kept only as far as roots at one place are concerned (`roots_eq`).
-/

set_option autoImplicit false

namespace VisualBlocks

/-! ## Renaming -/

variable (ρ : String → String)

/-- The node with other names for the blocks that hang on it. -/
def Node.rename (n : Node) : Node :=
  { n with inputs := n.inputs.mapValues ρ, next := n.next.map ρ }

def Parent.rename (p : Parent) : Parent := { p with id := ρ p.id }

def Block.rename (b : Block) : Block :=
  { b with
    toNode := b.toNode.rename ρ
    id := ρ b.id
    parent := b.parent.map (Parent.rename ρ) }

def Graph.rename (graph : Graph) : Graph :=
  ⟨graph.top.map ρ, graph.nodes.map (Prod.map ρ (Node.rename ρ))⟩

/-- The workspace with other names for its blocks. -/
def Workspace.rename (w : Workspace) : Workspace := ⟨w.blocks.map (Block.rename ρ)⟩

variable {ρ} {σ : String → String}

theorem Block.hanging_rename (b : Block) (link : Link) :
    (b.rename ρ).hanging link = (b.hanging link).map ρ := by
  cases link with
  | next =>
    show (b.next.map ρ).toList = b.next.toList.map ρ
    cases b.next <;> rfl
  | input => exact b.inputs.values_mapValues ρ

namespace Workspace

variable {w w' : Workspace} {id : String} {b : Block}

theorem ids_rename (w : Workspace) : (w.rename ρ).ids = w.ids.map ρ := by
  rw [ids, rename, List.map_map, ids, List.map_map]
  rfl

theorem mem_ids_rename : id ∈ (w.rename ρ).ids ↔ ∃ old ∈ w.ids, ρ old = id := by
  rw [ids_rename, List.mem_map]

section Injective

variable (hρ : ρ.Injective)

include hρ

theorem get?_rename (w : Workspace) (id : String) :
    (w.rename ρ).get? (ρ id) = (w.get? id).map (Block.rename ρ) := by
  have hsame : (fun b => b.id == ρ id) ∘ Block.rename ρ = fun b => b.id == id := by
    funext b
    exact Bool.eq_iff_iff.2 (by simp [Block.rename, hρ.eq_iff])
  rw [get?, rename, List.find?_map, hsame, get?]

theorem parentOf_rename (w : Workspace) (id : String) :
    (w.rename ρ).parentOf (ρ id) = (w.parentOf id).map (Parent.rename ρ) := by
  rw [parentOf, get?_rename hρ, parentOf]
  cases w.get? id <;> rfl

theorem hanging_rename (w : Workspace) (id : String) (link : Link) :
    (w.rename ρ).hanging (ρ id) link = (w.hanging id link).map ρ := by
  rw [hanging, get?_rename hρ, hanging]
  cases w.get? id with
  | none => rfl
  | some b => exact b.hanging_rename link

/-- A parent in the renamed workspace is one in the workspace. -/
theorem exists_of_parentOf_rename {child : String} {p : Parent}
    (hp : (w.rename ρ).parentOf child = some p) :
    ∃ old q, ρ old = child ∧ w.parentOf old = some q ∧ q.rename ρ = p := by
  obtain ⟨old, -, rfl⟩ := mem_ids_rename.1 (mem_ids_of_parentOf hp)
  rw [parentOf_rename hρ] at hp
  obtain ⟨q, hq, hqp⟩ := Option.map_eq_some_iff.1 hp
  exact ⟨old, q, rfl, hq, hqp⟩

theorem Linked.rename (h : Linked w) : Linked (w.rename ρ) where
  nodup := by
    rw [ids_rename]
    exact h.nodup.map hρ
  links id link child := by
    constructor
    · intro hchild
      obtain ⟨old, -, rfl⟩ := mem_ids_rename.1 (mem_ids_of_hanging hchild)
      rw [hanging_rename hρ] at hchild
      obtain ⟨c, hc, rfl⟩ := List.mem_map.1 hchild
      rw [parentOf_rename hρ, (h.links _ _ _).1 hc]
      rfl
    · intro hparent
      obtain ⟨c, q, rfl, hq, hqp⟩ := exists_of_parentOf_rename hρ hparent
      obtain ⟨rfl, rfl⟩ := Parent.mk.inj hqp
      rw [hanging_rename hρ]
      exact List.mem_map_of_mem ((h.links _ _ _).2 hq)
  distinct id link := by
    cases hget : (w.rename ρ).get? id with
    | none =>
      rw [hanging_of_none hget]
      exact .nil
    | some b =>
      obtain ⟨old, -, rfl⟩ := mem_ids_rename.1 (mem_ids_of_get? hget)
      rw [hanging_rename hρ]
      exact (h.distinct old link).map hρ
  acyclic := by
    obtain ⟨rank, hrank⟩ := h.acyclic
    have hback := Function.leftInverse_invFun hρ
    refine ⟨rank ∘ Function.invFun ρ, fun id p hp => ?_⟩
    obtain ⟨old, q, rfl, hq, rfl⟩ := exists_of_parentOf_rename hρ hp
    have hlt := hrank old q hq
    rwa [Function.comp_apply, Function.comp_apply, hback, Parent.rename, hback]

/-- **A workspace can be built with other names as well.** -/
theorem Proper.rename (h : Proper w) (hnamed : ∀ id ∈ w.ids, ρ id ≠ "") :
    Proper (w.rename ρ) where
  linked := h.linked.rename hρ
  filed := by
    refine ⟨fun hmem => ?_, List.forall_mem_map.2 fun b hb => (h.filed.ordered b hb).mapValues ρ⟩
    obtain ⟨old, hold, hempty⟩ := mem_ids_rename.1 hmem
    exact hnamed old hold hempty
  plain := List.forall_mem_map.2 fun b hb => ⟨(h.plain b hb).1, (h.plain b hb).2, (h.plain b hb).3⟩

end Injective

/-- Names that no block has do not matter. -/
theorem Linked.rename_congr (h : Linked w) (heq : ∀ id ∈ w.ids, σ id = ρ id) :
    w.rename σ = w.rename ρ := by
  refine congrArg Workspace.mk (List.map_congr_left fun b hb => ?_)
  have hget := get?_of_mem h.nodup hb
  have hhanging (link : Link) (child : String) (hchild : child ∈ b.hanging link) :
      σ child = ρ child := by
    rw [← hanging_of_get? hget, h.links] at hchild
    exact heq child (mem_ids_of_parentOf hchild)
  have hid : σ b.id = ρ b.id := heq b.id (mem_ids_of_get? hget)
  have hnext : b.next.map σ = b.next.map ρ :=
    Option.map_congr fun child hchild => hhanging .next child (Option.mem_toList.2 hchild)
  have hinputs : b.inputs.mapValues σ = b.inputs.mapValues ρ :=
    congrArg Table.mk <| List.map_congr_left fun e he =>
      congrArg (Prod.mk e.1) (hhanging .input e.2 (List.mem_map_of_mem he))
  have hparent : b.parent.map (Parent.rename σ) = b.parent.map (Parent.rename ρ) := by
    refine Option.map_congr fun p hp => ?_
    rw [Parent.rename, Parent.rename, heq p.id (h.parent_mem_ids ((parentOf_of_get? hget).trans hp))]
  rw [Block.rename, Block.rename, Node.rename, Node.rename, hid, hnext, hinputs, hparent]

/-- Names that are different for the blocks can be made different for all. -/
theorem exists_injective_extension (hρ : ∀ id ∈ w.ids, ∀ other ∈ w.ids, ρ id = ρ other → id = other) :
    ∃ σ : String → String, σ.Injective ∧ ∀ id ∈ w.ids, σ id = ρ id := by
  let named : Set String := {id | id ∈ w.ids}
  let f : named ↪ String :=
    ⟨fun id => ρ id, fun a b hab => Subtype.ext (hρ a a.2 b b.2 hab)⟩
  have hfew : Cardinal.mk named < Cardinal.mk String :=
    (Cardinal.lt_aleph0_iff_set_finite.2 w.ids.finite_toSet).trans_le (Cardinal.aleph0_le_mk String)
  obtain ⟨σ, hσ⟩ := Cardinal.extend_function_of_lt f hfew ⟨.refl String⟩
  exact ⟨σ, σ.injective, fun id hid => hσ ⟨id, hid⟩⟩

/-! ## Another order of creation -/

theorem get?_eq_some_iff (hnodup : w.ids.Nodup) :
    w.get? id = some b ↔ b ∈ w.blocks ∧ b.id = id := by
  refine ⟨fun hget => ⟨List.mem_of_find?_eq_some hget, get?_id hget⟩, ?_⟩
  rintro ⟨hb, rfl⟩
  exact get?_of_mem hnodup hb

/-- A workspace that can be built can be built in another order. -/
theorem Proper.perm (h : Proper w) (hperm : w'.blocks.Perm w.blocks) : Proper w' := by
  have hids : w'.ids.Perm w.ids := hperm.map _
  have hnodup : w'.ids.Nodup := hids.nodup_iff.2 h.linked.nodup
  have hget (id : String) : w'.get? id = w.get? id := by
    refine Option.ext fun b => ?_
    rw [get?_eq_some_iff hnodup, get?_eq_some_iff h.linked.nodup, hperm.mem_iff]
  refine ⟨h.linked.of_eq hnodup (fun id => ?_) (fun id link => ?_), ⟨?_, ?_⟩, ?_⟩
  · rw [parentOf, parentOf, hget]
  · rw [hanging, hanging, hget]
  · exact fun hmem => h.filed.named (hids.mem_iff.1 hmem)
  · exact fun b hb => h.filed.ordered b (hperm.mem_iff.1 hb)
  · exact fun b hb => h.plain b (hperm.mem_iff.1 hb)

/-! ## The reading order -/

/-- The blocks without a parent at one place, in the order of their creation. -/
def rootsAt (w : Workspace) (x y : Int) : List Block :=
  (w.blocks.filter fun b => b.parent.isNone).filter fun b => b.y == y && b.x == x

/-- Lists in reading order are equal if they are equal at every place. -/
theorem eq_of_readsBefore {bs bs' : List Block}
    (h : bs.Pairwise fun a b => a.readsBefore b = true)
    (h' : bs'.Pairwise fun a b => a.readsBefore b = true)
    (hplace : ∀ x y : Int, bs.filter (fun b => b.y == y && b.x == x) =
      bs'.filter fun b => b.y == y && b.x == x) : bs = bs' := by
  have hmem {cs cs' : List Block} (hcs : ∀ x y : Int, cs.filter (fun b => b.y == y && b.x == x) =
      cs'.filter fun b => b.y == y && b.x == x) {b : Block} (hb : b ∈ cs) : b ∈ cs' := by
    refine (List.mem_filter.1 (hcs b.x b.y ▸ List.mem_filter.2 ⟨hb, ?_⟩)).1
    rw [beq_self_eq_true, beq_self_eq_true]
    rfl
  induction bs generalizing bs' with
  | nil =>
    exact (List.eq_nil_iff_forall_not_mem.2 fun b hb =>
      List.not_mem_nil (hmem (fun x y => (hplace x y).symm) hb)).symm
  | cons b bs ih =>
    cases bs' with
    | nil => exact absurd (hmem hplace List.mem_cons_self) List.not_mem_nil
    | cons b' bs' =>
      have hfirst {c d : Block} {cs : List Block}
          (hcs : (c :: cs).Pairwise fun a b => a.readsBefore b = true) (hd : d ∈ c :: cs) :
          c.readsBefore d = true := by
        rcases List.mem_cons.1 hd with rfl | hd
        · exact (Bool.or_self _).symm.trans (d.readsBefore_total d)
        · exact (List.pairwise_cons.1 hcs).1 d hd
      have hle := Block.readsBefore_iff.1 <|
        hfirst h (hmem (fun x y => (hplace x y).symm) List.mem_cons_self)
      have hge := Block.readsBefore_iff.1 (hfirst h' (hmem hplace List.mem_cons_self))
      have hsame : b'.y = b.y ∧ b'.x = b.x := by omega
      have hhead := hplace b.x b.y
      rw [List.filter_cons_of_pos (by simp), List.filter_cons_of_pos (by simp [hsame])] at hhead
      obtain ⟨rfl, -⟩ := List.cons.inj hhead
      refine congrArg (b :: ·) (ih (List.pairwise_cons.1 h).2 (List.pairwise_cons.1 h').2 ?_)
      intro x y
      have hrest := hplace x y
      rw [List.filter_cons, List.filter_cons] at hrest
      split at hrest
      · exact (List.cons.inj hrest).2
      · exact hrest

/-- **The order of creation matters only where roots are at one place.** -/
theorem roots_eq (h : ∀ x y : Int, w'.rootsAt x y = w.rootsAt x y) : w'.roots = w.roots := by
  have hsorted (w : Workspace) := List.pairwise_mergeSort Block.readsBefore_trans
    Block.readsBefore_total (w.blocks.filter fun b => b.parent.isNone)
  refine eq_of_readsBefore (hsorted w') (hsorted w) fun x y => ?_
  have hlevel (a b : Block) (ha : (a.y == y && a.x == x) = true)
      (hb : (b.y == y && b.x == x) = true) : a.readsBefore b = true := by
    rw [Bool.and_eq_true, beq_iff_eq, beq_iff_eq] at ha hb
    rw [Block.readsBefore_iff]
    omega
  have hplace (w : Workspace) : w.roots.filter (fun b => b.y == y && b.x == x) =
      w.rootsAt x y :=
    filter_mergeSort Block.readsBefore_trans Block.readsBefore_total hlevel _
  exact (hplace w').trans ((h x y).trans (hplace w).symm)

/-- **The reading order does not depend on the names.** -/
theorem roots_rename (w : Workspace) : (w.rename ρ).roots = w.roots.map (Block.rename ρ) := by
  have hroot : (fun b : Block => b.parent.isNone) ∘ Block.rename ρ = fun b => b.parent.isNone :=
    funext fun b => Option.isNone_map
  have hplace (b c : Block) : b.readsBefore c = (b.rename ρ).readsBefore (c.rename ρ) := rfl
  rw [roots, rename, List.filter_map, hroot]
  exact (List.map_mergeSort fun b _ c _ => hplace b c).symm

theorem graph_rename (w : Workspace) : (w.rename ρ).graph = w.graph.rename ρ := by
  have htop : (w.rename ρ).top = w.top.map ρ := by
    show (w.rename ρ).roots.map (·.id) = (w.roots.map (·.id)).map ρ
    rw [roots_rename, List.map_map, List.map_map]
    rfl
  rw [graph, htop, Graph.rename, graph, rename, List.map_map, List.map_map]
  rfl

end Workspace
end VisualBlocks

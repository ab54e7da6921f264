import Mathlib.Data.List.Perm.Subperm
import VisualBlocks.Workspace.Edit

/-!
# The links of a workspace

A connection is written down twice: the child knows its parent (`Workspace.parentOf`) and the parent
knows its children (`Workspace.hanging`).  A workspace is `Linked` when both sides say the same, no
block hangs twice on another one, and no block hangs on itself, directly or through others.

Every operation on workspaces keeps them linked.  Here are the operations that do not delete: **the
check for circles is good enough** (`Linked.mem_ascent`), so hanging one block on another one closes
no circle (`Linked.attach`).
-/

set_option autoImplicit false

namespace VisualBlocks

/-- The blocks that hang on a block by the given kind of link. -/
def Block.hanging (b : Block) : Link → List String
  | .next => b.next.toList
  | .input => b.inputs.values

namespace Workspace

variable {w w' : Workspace} {id : String} {b : Block}

/-! ## Blocks under their identifiers -/

theorem get?_id (h : w.get? id = some b) : b.id = id := by
  have hfound := List.find?_some h
  exact beq_iff_eq.1 hfound

theorem mem_ids_of_get? (h : w.get? id = some b) : id ∈ w.ids :=
  List.mem_map.2 ⟨b, List.mem_of_find?_eq_some h, get?_id h⟩

theorem get?_isSome_iff : (w.get? id).isSome = true ↔ id ∈ w.ids := by
  rw [get?, List.find?_isSome, ids, List.mem_map]
  simp only [beq_iff_eq]

/-- Without repetition each block is found under its identifier. -/
theorem get?_of_mem (hnodup : w.ids.Nodup) (h : b ∈ w.blocks) : w.get? b.id = some b := by
  obtain ⟨blocks⟩ := w
  rw [get?]
  rw [ids] at hnodup
  dsimp only at h hnodup ⊢
  induction blocks with
  | nil => cases h
  | cons c cs ih =>
    rw [List.map_cons, List.nodup_cons] at hnodup
    rcases List.mem_cons.1 h with rfl | h
    · exact List.find?_cons_of_pos (by rw [beq_self_eq_true])
    · have hne : c.id ≠ b.id := fun heq => hnodup.1 (List.mem_map.2 ⟨b, h, heq.symm⟩)
      rw [List.find?_cons_of_neg (by rwa [beq_iff_eq])]
      exact ih hnodup.2 h

/-! ## Both sides of a connection -/

/-- The block that a block hangs on, and how. -/
def parentOf (w : Workspace) (id : String) : Option Parent := (w.get? id).bind (·.parent)

/-- The blocks that hang on a block by the given kind of link. -/
def hanging (w : Workspace) (id : String) (link : Link) : List String :=
  ((w.get? id).map fun b => b.hanging link).getD []

theorem parentOf_of_get? (h : w.get? id = some b) : w.parentOf id = b.parent := by
  rw [parentOf, h]
  rfl

theorem hanging_of_get? (h : w.get? id = some b) (link : Link) :
    w.hanging id link = b.hanging link := by
  rw [hanging, h]
  rfl

theorem hanging_of_none (h : w.get? id = none) (link : Link) : w.hanging id link = [] := by
  rw [hanging, h]
  rfl

theorem mem_ids_of_parentOf {p : Parent} (h : w.parentOf id = some p) : id ∈ w.ids := by
  obtain ⟨b, hb, -⟩ := Option.bind_eq_some_iff.1 h
  exact mem_ids_of_get? hb

theorem mem_ids_of_hanging {child : String} {link : Link} (h : child ∈ w.hanging id link) :
    id ∈ w.ids := by
  cases hb : w.get? id with
  | none =>
    rw [hanging_of_none hb] at h
    cases h
  | some b => exact mem_ids_of_get? hb

/-- Both sides of every connection say the same, no block hangs twice on another one, and what hangs
on a block has a smaller rank. -/
structure Linked (w : Workspace) : Prop where
  nodup : w.ids.Nodup
  links (id : String) (link : Link) (child : String) :
    child ∈ w.hanging id link ↔ w.parentOf child = some ⟨id, link⟩
  distinct (id : String) (link : Link) : (w.hanging id link).Nodup
  acyclic : ∃ rank : String → Nat, ∀ id p, w.parentOf id = some p → rank id < rank p.id

theorem linked_empty : Linked empty where
  nodup := List.nodup_nil
  links _ _ _ := ⟨fun h => absurd h List.not_mem_nil, nofun⟩
  distinct _ _ := List.nodup_nil
  acyclic := ⟨fun _ => 0, nofun⟩

/-- A change that leaves all connections as they are. -/
theorem Linked.of_eq (h : Linked w) (hnodup : w'.ids.Nodup)
    (hparent : ∀ id, w'.parentOf id = w.parentOf id)
    (hhanging : ∀ id link, w'.hanging id link = w.hanging id link) : Linked w' where
  nodup := hnodup
  links id link child := by rw [hhanging, hparent, h.links]
  distinct id link := by
    rw [hhanging]
    exact h.distinct id link
  acyclic := by
    obtain ⟨rank, hrank⟩ := h.acyclic
    exact ⟨rank, fun id p hp => hrank id p (by rwa [hparent] at hp)⟩

/-! ## Above -/

/-- The block `a` is the other block, or what it hangs on, or what that one hangs on, and so on. -/
inductive Above (w : Workspace) (a : String) : String → Prop
  | refl : Above w a a
  | up {id : String} {p : Parent} (hp : w.parentOf id = some p) (h : Above w a p.id) : Above w a id

namespace Above

variable {a x y : String}

theorem trans (h : Above w a x) (h' : Above w x y) : Above w a y := by
  induction h' with
  | refl => exact h
  | up hp _ ih => exact .up hp ih

/-- Of two blocks above a third one, one is above the other. -/
theorem total {a' : String} (h : Above w a x) (h' : Above w a' x) :
    Above w a a' ∨ Above w a' a := by
  induction h with
  | refl => exact .inr h'
  | @up x p hp h ih =>
    cases h' with
    | refl => exact .inl (.up hp h)
    | up hp' h' =>
      obtain rfl := Option.some.inj (hp.symm.trans hp')
      exact ih h'

theorem eq_or_up (h : Above w a x) : a = x ∨ ∃ p, w.parentOf x = some p ∧ Above w a p.id := by
  cases h with
  | refl => exact .inl rfl
  | up hp h => exact .inr ⟨_, hp, h⟩

theorem eq_of_root (h : Above w a x) (hroot : w.parentOf x = none) : a = x := by
  rcases h.eq_or_up with heq | ⟨p, hp, -⟩
  · exact heq
  · rw [hroot] at hp
    cases hp

theorem rank_le {rank : String → Nat}
    (hrank : ∀ id p, w.parentOf id = some p → rank id < rank p.id) (h : Above w a x) :
    rank x ≤ rank a := by
  induction h with
  | refl => exact Nat.le_refl _
  | up hp _ ih => exact Nat.le_trans (Nat.le_of_lt (hrank _ _ hp)) ih

end Above

/-- A way up that has passed only blocks of smaller rank has not passed all blocks. -/
theorem length_lt_of_passed {rank : String → Nat} {x : String} {passed : List String}
    (hx : x ∈ w.ids) (hnodup : passed.Nodup)
    (hpassed : ∀ y ∈ passed, y ∈ w.ids ∧ rank y < rank x) :
    x ∉ passed ∧ passed.length < w.blocks.length := by
  have hfresh : x ∉ passed := fun hmem => Nat.lt_irrefl _ (hpassed x hmem).2
  refine ⟨hfresh, ?_⟩
  have hsub : x :: passed ⊆ w.ids := by
    intro y hy
    rcases List.mem_cons.1 hy with rfl | hy
    · exact hx
    · exact (hpassed y hy).1
  have hle := (List.nodup_cons.2 ⟨hfresh, hnodup⟩).length_le_of_subset hsub
  rwa [List.length_cons, ids, List.length_map] at hle

/-- **The way up from a block meets all blocks above it.**  The ranks rise on the way, so no block
is passed twice, and there are no more steps than blocks. -/
theorem Above.mem_climb {rank : String → Nat}
    (hrank : ∀ id p, w.parentOf id = some p → rank id < rank p.id) {a x : String}
    (h : Above w a x) (ha : a ∈ w.ids) (passed : List String) (hnodup : passed.Nodup)
    (hpassed : ∀ y ∈ passed, y ∈ w.ids ∧ rank y < rank x) :
    a ∈ ascent.climb w (w.blocks.length - passed.length) x := by
  induction h generalizing passed with
  | refl =>
    obtain ⟨-, hlt⟩ := length_lt_of_passed ha hnodup hpassed
    obtain ⟨n, hn⟩ := Nat.exists_eq_add_of_lt hlt
    have hlength : w.blocks.length - passed.length = n + 1 := by omega
    rw [hlength, ascent.climb]
    exact List.mem_cons_self
  | @up x p hp _ ih =>
    have hx := mem_ids_of_parentOf hp
    obtain ⟨hfresh, hlt⟩ := length_lt_of_passed hx hnodup hpassed
    have hlength : w.blocks.length - passed.length =
        (w.blocks.length - (x :: passed).length) + 1 := by
      rw [List.length_cons]
      omega
    have hlower : ∀ y ∈ x :: passed, y ∈ w.ids ∧ rank y < rank p.id := by
      intro y hy
      rcases List.mem_cons.1 hy with rfl | hy
      · exact ⟨hx, hrank y p hp⟩
      · exact ⟨(hpassed y hy).1, Nat.lt_trans (hpassed y hy).2 (hrank x p hp)⟩
    have hparent : (w.get? x).bind (·.parent) = some p := hp
    rw [hlength, ascent.climb, hparent]
    exact List.mem_cons_of_mem _ (ih _ (List.nodup_cons.2 ⟨hfresh, hnodup⟩) hlower)

/-- **The check for circles is good enough.** -/
theorem Linked.mem_ascent (h : Linked w) {a x : String} (habove : Above w a x) (ha : a ∈ w.ids) :
    a ∈ w.ascent x := by
  obtain ⟨rank, hrank⟩ := h.acyclic
  exact habove.mem_climb hrank ha [] List.nodup_nil nofun

/-! ## Hanging and taking off -/

/-- **A block that hangs on nothing can be hung on a block that is not below it.** -/
theorem Linked.attach (h : Linked w) (parent child : String) (link : Link) (hnodup : w'.ids.Nodup)
    (hroot : w.parentOf child = none) (hbelow : ¬ Above w child parent)
    (hparent : ∀ id, w'.parentOf id =
      if id = child then some ⟨parent, link⟩ else w.parentOf id)
    (hhanging : ∀ id l, (w'.hanging id l).Perm
      (if id = parent ∧ l = link then child :: w.hanging id l else w.hanging id l)) :
    Linked w' where
  nodup := hnodup
  links id l c := by
    rw [(hhanging id l).mem_iff, hparent]
    by_cases hc : c = child
    · subst hc
      have hfree : c ∉ w.hanging id l := by
        rw [h.links, hroot]
        exact nofun
      rw [if_pos rfl, Option.some_inj, Parent.mk.injEq]
      split
      · next hplace => exact ⟨fun _ => ⟨hplace.1.symm, hplace.2.symm⟩, fun _ => List.mem_cons_self⟩
      · next hplace => exact ⟨fun hmem => absurd hmem hfree,
          fun heq => absurd ⟨heq.1.symm, heq.2.symm⟩ hplace⟩
    · rw [if_neg hc]
      split
      · rw [List.mem_cons, h.links]
        exact ⟨fun hmem => hmem.resolve_left hc, .inr⟩
      · exact h.links id l c
  distinct id l := by
    rw [(hhanging id l).nodup_iff]
    split
    · refine List.nodup_cons.2 ⟨?_, h.distinct id l⟩
      rw [h.links, hroot]
      exact nofun
    · exact h.distinct id l
  acyclic := by
    classical
    obtain ⟨rank, hrank⟩ := h.acyclic
    -- what is above the new parent rises over the child
    refine ⟨fun x => if Above w x parent then rank x + rank child + 1 else rank x, ?_⟩
    intro x p hp
    dsimp only
    rw [hparent] at hp
    by_cases hx : x = child
    · subst hx
      rw [if_pos rfl] at hp
      obtain rfl := Option.some.inj hp
      rw [if_neg hbelow, if_pos .refl]
      omega
    · rw [if_neg hx] at hp
      have hlt := hrank x p hp
      by_cases habove : Above w x parent
      · have hup : Above w p.id parent := Above.trans (.up hp .refl) habove
        rw [if_pos habove, if_pos hup]
        omega
      · rw [if_neg habove]
        split <;> omega

/-- **A block can be taken off what it hangs on.** -/
theorem Linked.detach (h : Linked w) (child : String) (hnodup : w'.ids.Nodup)
    (hparent : ∀ id, w'.parentOf id = if id = child then none else w.parentOf id)
    (hhanging : ∀ id link, w'.hanging id link = (w.hanging id link).filter (· != child)) :
    Linked w' where
  nodup := hnodup
  links id link c := by
    rw [hhanging, List.mem_filter, hparent, bne_iff_ne, h.links]
    by_cases hc : c = child
    · rw [if_pos hc]
      exact ⟨fun hmem => absurd hc hmem.2, nofun⟩
    · rw [if_neg hc]
      exact ⟨And.left, fun hp => ⟨hp, hc⟩⟩
  distinct id link := by
    rw [hhanging]
    exact (h.distinct id link).filter _
  acyclic := by
    obtain ⟨rank, hrank⟩ := h.acyclic
    refine ⟨rank, fun id p hp => ?_⟩
    rw [hparent] at hp
    split at hp
    · cases hp
    · exact hrank id p hp

end Workspace
end VisualBlocks

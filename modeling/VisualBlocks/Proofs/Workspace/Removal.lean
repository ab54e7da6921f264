import VisualBlocks.Proofs.Workspace.InPlace

/-!
# Deleting a block

Deletion takes a block off and then works through a list of blocks that are still to be deleted:
each of them is erased, and what hung on it is added to the list.  In between the workspace is not
linked, since erased blocks are still parents of others.

**A deletion removes one subtree and empties one slot** (`remove_prunes`).  What goes are the block
and all blocks below it, by slots of both kinds (`Linked.mem_gone_iff`).  The slot that has held the
block is found by value; as no block stands in two slots, that is the slot and nothing else
(`taken_eq_vacate`).
-/

set_option autoImplicit false

namespace VisualBlocks

/-! ## Emptied slots -/

/-- The block with an empty slot. -/
def Block.vacate (b : Block) : Slot → Block
  | .next => { b with next := none }
  | .input name => { b with inputs := b.inputs.without name }

theorem Block.slot?_vacate (b : Block) (s s' : Slot) :
    (b.vacate s).slot? s' = if s' = s then none else b.slot? s' := by
  cases s with
  | next => cases s' <;> simp [vacate, slot?]
  | input name =>
    cases s' with
    | next => simp [vacate, slot?]
    | input name' =>
      rw [vacate, slot?, slot?, Table.get?_without]
      simp only [Slot.input.injEq]

namespace Workspace

variable {w w' u : Workspace} {id x owner : String} {s : Slot} {gone : List String}

/-- Dropping a block by its value empties the slot that it stands in. -/
theorem taken_eq_vacate {b : Block} (hordered : b.inputs.Ordered)
    (hdistinct : b.inputs.values.Nodup) (hs : b.slot? s = some id) :
    taken b s.link id = b.vacate s := by
  cases s with
  | next => rfl
  | input name =>
    rw [Slot.link, taken, Block.vacate, hordered.filterValues_eq_without hdistinct hs]

/-! ## Taking a block off -/

/-- The slot that a block is taken out of is empty then, and the rest of its owner is as it was. -/
theorem Linked.get?_disconnect_owner (h : Linked w) (hfiled : Filed w)
    (hdisconnect : w.disconnect id = .ok u) (hs : w.slot? owner s = some id) :
    u.get? owner = (w.get? owner).map (·.vacate s) := by
  have hparent : w.parentOf id = some ⟨owner, s.link⟩ :=
    (h.exists_slot_iff hfiled).2 ⟨s, rfl, hs⟩
  have hother : owner ≠ id := by
    obtain ⟨rank, hrank⟩ := h.acyclic
    exact fun heq => Nat.lt_irrefl _ (heq ▸ hrank id _ hparent)
  obtain ⟨b, hb, ⟨hroot, -⟩ | ⟨p, hp, rfl⟩⟩ := disconnect_eq_ok hdisconnect
  · rw [parentOf_of_get? hb, hroot] at hparent
    cases hparent
  · rw [parentOf_of_get? hb, hp, Option.some_inj] at hparent
    subst hparent
    obtain ⟨a, ha, hslot⟩ := Option.bind_eq_some_iff.1 hs
    have hdistinct := h.distinct owner .input
    rw [hanging_of_get? ha] at hdistinct
    rw [get?_modify _ _ _ fun b => taken_id b _ _, get?_modify w _ _ fun _ => by rfl, ha,
      beq_false_of_ne hother, beq_self_eq_true]
    exact congrArg some (taken_eq_vacate (hfiled.ordered_of_get? ha) hdistinct hslot)

/-- All other blocks stay as they are when a block is taken off. -/
theorem Linked.get?_disconnect_other (h : Linked w) (hfiled : Filed w)
    (hdisconnect : w.disconnect id = .ok u) (hne : x ≠ id) (hfree : ∀ s, w.slot? x s ≠ some id) :
    u.get? x = w.get? x := by
  obtain ⟨b, hb, ⟨-, rfl⟩ | ⟨p, hp, rfl⟩⟩ := disconnect_eq_ok hdisconnect
  · rfl
  · have hother : x ≠ p.id := by
      rintro rfl
      obtain ⟨s, -, hs⟩ := (h.exists_slot_iff hfiled).1 (by rw [parentOf_of_get? hb, hp])
      exact hfree s hs
    rw [get?_modify _ _ _ fun b => taken_id b _ _, get?_modify w _ _ fun _ => by rfl,
      beq_false_of_ne hne, beq_false_of_ne hother]
    simp

/-- The same blocks are below a block that has been taken off. -/
theorem Linked.above_disconnect_iff (h : Linked w)
    (hdisconnect : w.disconnect id = .ok u) : Above u id x ↔ Above w id x := by
  constructor
  · intro habove
    induction habove with
    | refl => exact .refl
    | up hp _ ih => exact .up (parentOf_of_disconnect hdisconnect hp) ih
  · intro habove
    obtain ⟨rank, hrank⟩ := h.acyclic
    induction habove with
    | refl => exact .refl
    | @up x p hp habove ih =>
      have hne : x ≠ id := by
        rintro rfl
        exact Nat.lt_irrefl _ (Nat.lt_of_lt_of_le (hrank x p hp) (habove.rank_le hrank))
      refine .up ?_ ih
      rw [parentOf_disconnect_eq hdisconnect, if_neg hne, hp]

/-! ## What goes -/

/-- **The blocks that go are those below the given one.**  Every block that goes has its parent in
the list or is the given block itself, and ways up end. -/
theorem Linked.mem_gone_iff (h : Linked w) (hfiled : Filed w) (hid : id ∈ w.ids)
    (hgoes : Goes w [id] gone) : x ∈ gone ↔ Above w id x := by
  constructor
  · intro hx
    have hmem : x ∈ w.ids := by
      rcases hgoes.only x hx with hfirst | ⟨up, -, link, hlink⟩
      · rwa [List.mem_singleton.1 hfirst]
      · exact mem_ids_of_parentOf ((h.links up link x).1 hlink)
    obtain ⟨hway, -⟩ := (h.shaped hfiled).up x hmem
    generalize w.ascent x = path at hway
    clear hmem
    induction hway with
    | @root x hroot =>
      rcases hgoes.only x hx with hfirst | ⟨up, -, link, hlink⟩
      · rw [List.mem_singleton.1 hfirst]
        exact .refl
      · rw [h.links, hroot] at hlink
        cases hlink
    | @up x p path hp _ ih =>
      rcases hgoes.only x hx with hfirst | ⟨up, hup, link, hlink⟩
      · rw [List.mem_singleton.1 hfirst]
        exact .refl
      · rw [h.links, hp, Option.some_inj] at hlink
        subst hlink
        exact .up hp (ih hup)
  · intro habove
    induction habove with
    | refl => exact hgoes.given id (List.mem_singleton_self id) hid
    | @up x p hp _ ih =>
      exact hgoes.below p.id ih p.link x ((h.links _ _ _).2 hp) (mem_ids_of_parentOf hp)

/-! ## One subtree less -/

/-- What is left of a workspace when a block is deleted with all that is below it. -/
structure Pruned (w : Workspace) (id : String) (w' : Workspace) : Prop where
  /-- The blocks that are left keep their order. -/
  order : w'.ids.Sublist w.ids
  /-- All blocks are left that are not below the deleted one. -/
  left (x : String) : x ∈ w'.ids ↔ x ∈ w.ids ∧ ¬ w.Below id x
  /-- A block that has not held the deleted one is as it was. -/
  same (x : String) : ¬ w.Below id x → (∀ s, w.slot? x s ≠ some id) → w'.get? x = w.get? x
  /-- The slot that has held the deleted block is the only one, its owner is left, and on its owner
  nothing is changed but that this slot is empty. -/
  owner (x : String) (s : Slot) : w.slot? x s = some id →
    w.OnlyIn id x s ∧ ¬ w.Below id x ∧ w'.get? x = (w.get? x).map (·.vacate s)

/-- **Deletion in a linked workspace removes one subtree and empties one slot.** -/
theorem Linked.pruned (h : Linked w) (hfiled : Filed w) (hremove : w.remove id = .ok w') :
    w.Pruned id w' := by
  obtain ⟨u, gone, hdisconnect, hgoes, rfl⟩ := remove_eq_ok hremove
  obtain ⟨b, hb, -⟩ := disconnect_eq_ok hdisconnect
  have hids := ids_disconnect hdisconnect
  have hgone (x : String) : x ∈ gone ↔ w.Below id x := by
    rw [(h.disconnect hdisconnect).mem_gone_iff (hfiled.disconnect hdisconnect)
      (hids ▸ mem_ids_of_get? hb) hgoes, h.above_disconnect_iff hdisconnect,
        h.below_iff_above hfiled]
  refine ⟨?_, fun x => ?_, fun x hx hfree => ?_, fun x s hs => ?_⟩
  · rw [← hids]
    exact List.filter_sublist.map _
  · rw [mem_ids_without, hgone, hids]
  · have hne : x ≠ id := by
      rintro rfl
      exact hx .refl
    rw [get?_without, if_neg (by rwa [hgone])]
    exact h.get?_disconnect_other hfiled hdisconnect hne hfree
  · have hstays : ¬ w.Below id x := by
      rw [h.below_iff_above hfiled]
      obtain ⟨rank, hrank⟩ := h.acyclic
      intro habove
      have hlt := hrank id _ ((h.exists_slot_iff hfiled (p := ⟨x, s.link⟩)).2 ⟨s, rfl, hs⟩)
      exact absurd (habove.rank_le hrank) (Nat.not_le_of_lt hlt)
    refine ⟨h.onlyIn hfiled hs, hstays, ?_⟩
    rw [get?_without, if_neg (by rwa [hgone])]
    exact h.get?_disconnect_owner hfiled hdisconnect hs

/-- Only the deletion of a block that is not there is refused. -/
theorem Linked.exists_remove (h : Linked w) (hid : id ∈ w.ids) : ∃ w', w.remove id = .ok w' := by
  obtain ⟨u, hu⟩ := h.exists_disconnect hid
  refine ⟨u.eraseBelow [id], ?_⟩
  rw [Workspace.remove, hu]
  rfl

theorem remove_of_not_mem (hid : id ∉ w.ids) : w.remove id = .error (.unknownBlock id) := by
  have hnone : w.get? id = none := by
    rwa [← get?_isSome_iff, Option.isSome_iff_ne_none, not_not] at hid
  rw [Workspace.remove, Workspace.disconnect, find, hnone]
  rfl

/-- **Deletion removes exactly a subtree**, in every workspace that can be reached.  A block that is
there can be deleted, and what is left is as `Pruned` says; deleting a block that is not there is
refused.  In place, the deletion writes the one workspace, or it has written nothing. -/
theorem remove_prunes (w : Workspace) (hreachable : w.Reachable) (id : String) :
    (id ∈ w.ids → ∃ w', w.remove id = .ok w' ∧ (Edit.remove id).inPlace w = .ok ⟨⟩ w' ∧
      w.Pruned id w') ∧
    (id ∉ w.ids → w.remove id = .error (.unknownBlock id) ∧
      (Edit.remove id).inPlace w = .error (.unknownBlock id) w) := by
  have hinPlace := hreachable.linked.inPlace_eq (.remove id)
  rw [Edit.apply] at hinPlace
  constructor
  · intro hid
    obtain ⟨w', hremove⟩ := hreachable.linked.exists_remove hid
    rw [hremove] at hinPlace
    exact ⟨w', hremove, hinPlace, hreachable.linked.pruned hreachable.filed hremove⟩
  · intro hid
    have hrefused := remove_of_not_mem hid
    rw [hrefused] at hinPlace
    exact ⟨hrefused, hinPlace⟩

/-- A loop with a condition in an input and a block in its body, and a chain around it: the first
block of the chain holds the loop, and the last one follows it. -/
def loopInChain : Workspace :=
  ⟨[{ Block.fresh "first" "text_print" with next := some "loop" },
    { Block.fresh "loop" "controls_repeat" with
      inputs := ⟨[("DO", "body"), ("TIMES", "count")]⟩
      next := some "last"
      parent := some ⟨"first", .next⟩ },
    { Block.fresh "count" "math_number" with parent := some ⟨"loop", .input⟩ },
    { Block.fresh "body" "text_print" with parent := some ⟨"loop", .input⟩ },
    { Block.fresh "last" "text_print" with parent := some ⟨"loop", .next⟩ },
    Block.fresh "other" "text_print"]⟩

theorem loopInChain_reachable : loopInChain.Reachable :=
  ((((((((((Workspace.Reachable.empty.step (.add "first" "text_print" rfl)).step
    (.add "loop" "controls_repeat" rfl)).step (.add "count" "math_number" rfl)).step
    (.add "body" "text_print" rfl)).step (.add "last" "text_print" rfl)).step
    (.add "other" "text_print" rfl)).step (.connectNext "first" "loop" rfl)).step
    (.connectInput "loop" "TIMES" "count" rfl)).step (.connectInput "loop" "DO" "body" rfl)).step
    (.connectNext "loop" "last" rfl))

theorem eraseBelow_cons (w : Workspace) (id : String) (pending : List String) :
    w.eraseBelow (id :: pending) = match w.get? id with
      | none => w.eraseBelow pending
      | some b => (w.erase id).eraseBelow (b.below ++ pending) := by
  rw [eraseBelow]
  split
  · next hnone => rw [hnone]
  · next b hb => rw [hb]

theorem loopInChain_prunes :
    loopInChain.remove "loop" =
      .ok ⟨[Block.fresh "first" "text_print", Block.fresh "other" "text_print"]⟩ ∧
    loopInChain.Pruned "loop"
      ⟨[Block.fresh "first" "text_print", Block.fresh "other" "text_print"]⟩ ∧
    (Edit.remove "stranger").inPlace loopInChain =
      .error (.unknownBlock "stranger") loopInChain := by
  have hremove : loopInChain.remove "loop" =
      .ok ⟨[Block.fresh "first" "text_print", Block.fresh "other" "text_print"]⟩ := by
    simp [remove, disconnect, loopInChain, Block.fresh, Node.bare, find, get?, change, modify, bind,
      Except.bind, pure, Except.pure, eraseBelow_cons, eraseBelow.eq_1, erase, Block.below,
      Table.values, Table.empty]
  obtain ⟨w', hw', -, hpruned⟩ :=
    (remove_prunes loopInChain loopInChain_reachable "loop").1 (by decide)
  obtain rfl := Except.ok.inj (hremove.symm.trans hw')
  exact ⟨hremove, hpruned,
    ((remove_prunes loopInChain loopInChain_reachable "stranger").2 (by decide)).2⟩

end Workspace
end VisualBlocks

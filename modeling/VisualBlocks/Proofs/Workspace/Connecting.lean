import VisualBlocks.Proofs.Workspace.Assembly
import VisualBlocks.Proofs.Workspace.Removal

/-!
# Connecting blocks

A block can be hung into a slot of another one if the slot is empty and the blocks are `Attachable`:
both are there, the first one hangs on nothing, and the other one is not below it.  That is what the
operations test, although they look at it from the other side: they climb up from the new parent and
see whether they meet the block (`Linked.exists_checkAttach_iff`).

**Connecting does nothing else than that, all of it or nothing, and taking the block off again
undoes it** (`connect_exact`).  Taking off looks for the block among the inputs by value.  It finds the
connection that has just been made and no other one, since a block that hangs on nothing stands in
no slot (`Linked.disconnect_hang`).
-/

set_option autoImplicit false

namespace VisualBlocks
namespace Workspace

variable {w w' : Workspace} {parent child : String} {s : Slot}

/-- The call that hangs a block into a slot of another one. -/
def Edit.connect (parent : String) (s : Slot) (child : String) : Edit :=
  match s with
  | .next => .connectNext parent child
  | .input name => .connectInput parent name child

/-- Can the one block hang on the other one, in whatever slot? -/
structure Attachable (w : Workspace) (parent child : String) : Prop where
  parent_mem : parent ∈ w.ids
  child_mem : child ∈ w.ids
  /-- The block hangs on nothing. -/
  free : w.parentOf child = none
  /-- The new parent is neither the block nor below it. -/
  apart : ¬ w.Below child parent

/-! ## When a connection can be made -/

/-- **The climb up from the new parent finds out whether it is below the block.** -/
theorem Linked.mem_ascent_iff (h : Linked w) (hfiled : Filed w) (hchild : child ∈ w.ids) :
    child ∈ w.ascent parent ↔ w.Below child parent := by
  rw [h.below_iff_above hfiled]
  exact ⟨above_of_mem_climb, fun habove => h.mem_ascent habove hchild⟩

theorem Linked.exists_checkAttach_iff (h : Linked w) (hfiled : Filed w) :
    (∃ p, w.checkAttach parent child = .ok p) ↔ w.Attachable parent child := by
  constructor
  · rintro ⟨p, hcheck⟩
    obtain ⟨hp, hchild, hfree, hascent⟩ := checkAttach_eq_ok hcheck
    rw [h.mem_ascent_iff hfiled hchild] at hascent
    exact ⟨mem_ids_of_get? hp, hchild, hfree, hascent⟩
  · rintro ⟨hparent, hchild, hfree, hapart⟩
    rw [← h.mem_ascent_iff hfiled hchild] at hapart
    obtain ⟨p, hp⟩ := Option.isSome_iff_exists.1 (get?_isSome_iff.2 hparent)
    exact ⟨p, checkAttach_of_get? hp hchild hfree hapart⟩

/-- What the two operations have in common: the check, and the test of the slot. -/
theorem exists_connect_iff : (∃ w', (Edit.connect parent s child).apply w = .ok w') ↔
    (∃ p, w.checkAttach parent child = .ok p) ∧ w.slot? parent s = none := by
  have hslot {p : Block} (hcheck : w.checkAttach parent child = .ok p) :
      w.slot? parent s = p.slot? s := slot?_of_get? (checkAttach_eq_ok hcheck).1 s
  cases s with
  | next =>
    constructor
    · rintro ⟨w', hconnect⟩
      obtain ⟨p, hcheck, hfree, -⟩ := connectNext_eq_ok hconnect
      exact ⟨⟨p, hcheck⟩, (hslot hcheck).trans hfree⟩
    · rintro ⟨⟨p, hcheck⟩, hempty⟩
      have hfree : p.next.isSome = false := by
        rw [hslot hcheck] at hempty
        exact Option.isSome_eq_false_iff.2 (Option.isNone_iff_eq_none.2 hempty)
      rw [Edit.connect, Edit.apply, Workspace.connectNext, hcheck]
      simp only [bind, Except.bind, hfree]
      exact ⟨_, rfl⟩
  | input name =>
    constructor
    · rintro ⟨w', hconnect⟩
      obtain ⟨p, hcheck, hfree, -⟩ := connectInput_eq_ok hconnect
      exact ⟨⟨p, hcheck⟩, (hslot hcheck).trans hfree⟩
    · rintro ⟨⟨p, hcheck⟩, hempty⟩
      have hfree : p.inputs.contains name = false := by
        rw [hslot hcheck] at hempty
        exact Option.isSome_eq_false_iff.2 (Option.isNone_iff_eq_none.2 hempty)
      rw [Edit.connect, Edit.apply, Workspace.connectInput, hcheck]
      simp only [bind, Except.bind, hfree]
      exact ⟨_, rfl⟩

/-! ## Taking off what has just been hung -/

/-- **A block that has been hung on another one can be taken off**, and then the workspace is as it
was. -/
theorem Linked.disconnect_hang (h : Linked w) {p : Block} {link : Link}
    (hcheck : w.checkAttach parent child = .ok p) {f : Block → Block} (hf : ∀ b, (f b).id = b.id)
    (hback : taken (f p) link child = p) :
    ((w.modify parent f).modify child fun b =>
      { b with parent := some ⟨parent, link⟩ }).disconnect child = .ok w := by
  obtain ⟨hp, hchild, hfree, hascent⟩ := checkAttach_eq_ok hcheck
  have hparent := mem_ids_of_get? hp
  have hne : child ≠ parent := by
    rintro rfl
    exact hascent (h.mem_ascent .refl hchild)
  have hsame {b d : Block} (hb : b ∈ w.blocks) (hd : w.get? b.id = some d) : b = d :=
    Option.some.inj ((get?_of_mem h.nodup hb).symm.trans hd)
  obtain ⟨c, hc⟩ := Option.isSome_iff_exists.1 (get?_isSome_iff.2 hchild)
  have hroot : c.parent = none := by rwa [parentOf_of_get? hc] at hfree
  have hget : ((w.modify parent f).modify child fun b =>
      { b with parent := some ⟨parent, link⟩ }).get? child =
        some { c with parent := some ⟨parent, link⟩ } := by
    rw [get?_modify _ _ _ fun _ => by rfl, get?_modify w _ _ hf, hc, beq_self_eq_true,
      beq_false_of_ne hne]
    rfl
  rw [Workspace.disconnect, find, hget]
  simp only [bind, Except.bind]
  refine (change_of_mem ?_ _).trans (congrArg Except.ok ?_)
  · rw [ids_modify _ _ fun _ => by rfl, ids_modify _ _ fun _ => by rfl, ids_modify w _ hf]
    exact hparent
  · refine modify_back hne hf (fun _ => rfl) (fun b hb hbid => ?_) fun b hb hbid => ?_
    · obtain rfl := hsame hb (hbid ▸ hp)
      exact hback
    · obtain rfl := hsame hb (hbid ▸ hc)
      rw [← hroot]

/-- **Taking a block off undoes the connection that has just been made.** -/
theorem Linked.disconnect_connect (h : Linked w) (hfiled : Filed w)
    (hconnect : (Edit.connect parent s child).apply w = .ok w') :
    w'.disconnect child = .ok w := by
  cases s with
  | next =>
    obtain ⟨p, hcheck, hfree, rfl⟩ := connectNext_eq_ok hconnect
    refine h.disconnect_hang hcheck (fun _ => rfl) ?_
    rw [taken, ← hfree]
  | input name =>
    obtain ⟨p, hcheck, hfree, rfl⟩ := connectInput_eq_ok hconnect
    obtain ⟨hp, -, hroot, -⟩ := checkAttach_eq_ok hcheck
    have hdistinct := h.distinct parent .input
    have habsent : child ∉ w.hanging parent .input := by
      rw [h.links, hroot]
      exact (Option.some_ne_none _).symm
    rw [hanging_of_get? hp] at hdistinct habsent
    refine h.disconnect_hang hcheck (fun _ => rfl) ?_
    rw [taken, (hfiled.ordered_of_get? hp).filterValues_set hdistinct hfree habsent]

/-- **Connecting is exact and atomic, and disconnecting undoes it**, for every workspace that can be
reached, for any two blocks and for any slot.  The call succeeds exactly if the blocks are
`Attachable` and the slot is empty.  In place, it writes the one workspace, or it is refused and has
written nothing.  After a call that succeeds, the block can be taken off, and that gives back the
workspace from before the call. -/
theorem connect_exact (w : Workspace) (hreachable : w.Reachable) (parent child : String) (s : Slot) :
    ((∃ w', (Edit.connect parent s child).apply w = .ok w') ↔
      w.Attachable parent child ∧ w.slot? parent s = none) ∧
    (∀ e, (Edit.connect parent s child).apply w = .error e →
      (Edit.connect parent s child).inPlace w = .error e w) ∧
    ∀ w', (Edit.connect parent s child).apply w = .ok w' →
      (Edit.connect parent s child).inPlace w = .ok ⟨⟩ w' ∧
        w'.disconnect child = .ok w ∧ (Edit.disconnect child).inPlace w' = .ok ⟨⟩ w := by
  have hlinked := hreachable.linked
  have hfiled := hreachable.filed
  refine ⟨?_, fun e hrefused => ?_, fun w' hconnect => ?_⟩
  · rw [exists_connect_iff, hlinked.exists_checkAttach_iff hfiled]
  · rw [hlinked.inPlace_eq, hrefused]
    rfl
  · have hback := hlinked.disconnect_connect hfiled hconnect
    refine ⟨?_, hback, ?_⟩
    · rw [hlinked.inPlace_eq, hconnect]
      rfl
    · rw [(hlinked.edit hconnect).inPlace_eq, Edit.apply, hback]
      rfl

/-- A block can follow the last one of a chain.  The first block of the chain cannot be hung on one
that is inside a loop of the chain. -/
theorem loopInChain_connect :
    loopInChain.Attachable "last" "other" ∧ loopInChain.slot? "last" .next = none ∧
    (∃ w', (Edit.connect "last" .next "other").apply loopInChain = .ok w' ∧
      (Edit.disconnect "other").inPlace w' = .ok ⟨⟩ loopInChain) ∧
    (Edit.connect "body" .next "first").inPlace loopInChain =
      .error (.cycle "first" "body") loopInChain := by
  have hlast := connect_exact loopInChain loopInChain_reachable "last" "other" .next
  have hbody := connect_exact loopInChain loopInChain_reachable "body" "first" .next
  have hconnect : (Edit.connect "last" .next "other").apply loopInChain =
      .ok (loopInChain.perform (.connect "last" .next "other")) := rfl
  obtain ⟨hattachable, hempty⟩ := hlast.1.1 ⟨_, hconnect⟩
  exact ⟨hattachable, hempty, ⟨_, hconnect, (hlast.2.2 _ hconnect).2.2⟩, hbody.2.1 _ rfl⟩

end Workspace
end VisualBlocks

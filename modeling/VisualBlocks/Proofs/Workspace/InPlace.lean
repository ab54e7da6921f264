import VisualBlocks.Proofs.Workspace.Reachable

/-!
# Edits in place

An operation on a workspace gives the changed workspace or a refusal.  Whoever keeps a workspace in
one place looks at its blocks and writes to them, one after the other, and a refusal between two
writes would leave the first of them behind.  `Edit.inPlace` is each edit as such a sequence.

**On a linked workspace an edit writes all or nothing** (`Linked.inPlace_eq`): it leaves what the
operation gives, or it is refused before it has written anything.  Two kinds of edits write twice.
Hanging a block on another one is safe, because both blocks have been looked up before.  Taking a
block off is safe only because a workspace has the parents of its blocks: the block forgets its
parent before the parent is looked up.
-/

set_option autoImplicit false

namespace VisualBlocks
namespace Workspace

variable {w : Workspace} {id : String}

/-- Looks and writes at a workspace that is kept in one place.  A refusal leaves what has been
written before it. -/
abbrev InPlace (α : Type) : Type := EStateM EditError Workspace α

/-! ## Looking and writing -/

namespace InPlace

/-- Looks at the workspace. -/
def look {α : Type} (f : Workspace → Except EditError α) : InPlace α := fun w =>
  match f w with
  | .ok a => .ok a w
  | .error e => .error e w

/-- Writes without looking. -/
def update (f : Workspace → Workspace) : InPlace Unit := fun w => .ok ⟨⟩ (f w)

/-- Looks a block up and writes to it. -/
def write (id : String) (f : Block → Block) : InPlace Unit := do
  let _ ← look (·.find id)
  update (·.modify id f)

/-- Takes a block off: it forgets its parent, and then its parent forgets it. -/
def takeOff (id : String) : InPlace Unit := do
  let b ← look (·.find id)
  write id fun b => { b with parent := none }
  match b.parent with
  | none => pure ()
  | some p => write p.id fun b => taken b p.link id

end InPlace

open InPlace

/-- The looks and the writes of a call, in their order. -/
def Edit.inPlace : Edit → InPlace Unit
  | .add id type => do
    let w ← look (·.add id type)
    update fun _ => w
  | .mark id shadow => write id fun b => { b with shadow }
  | .setField id name value => write id fun b => { b with fields := b.fields.set name value }
  | .setMutation id key value => write id fun b => { b with mutation := b.mutation.set key value }
  | .setPosition id x y => write id fun b => { b with x, y }
  | .connectInput parent name child => do
    let p ← look (·.checkAttach parent child)
    if p.inputs.contains name then throw (.inputTaken name parent)
    write parent fun b => { b with inputs := b.inputs.set name child }
    write child fun b => { b with parent := some ⟨parent, .input⟩ }
  | .connectNext block child => do
    let p ← look (·.checkAttach block child)
    if p.next.isSome then throw (.nextTaken block)
    write block fun b => { b with next := some child }
    write child fun b => { b with parent := some ⟨block, .next⟩ }
  | .disconnect id => takeOff id
  | .remove id => do
    takeOff id
    update (·.eraseBelow [id])

/-- What a call leaves that writes all or nothing. -/
def allOrNothing (w : Workspace) :
    Except EditError Workspace → EStateM.Result EditError Workspace Unit
  | .ok w' => .ok ⟨⟩ w'
  | .error e => .error e w

/-! ## All or nothing -/

theorem look_bind {α β : Type} (f : Workspace → Except EditError α) (k : α → InPlace β) :
    (look f >>= k) w = match f w with
      | .ok a => k a w
      | .error e => .error e w := by
  show EStateM.bind (look f) k w = _
  rw [EStateM.bind, look]
  cases f w <;> rfl

theorem write_eq (w : Workspace) (id : String) (f : Block → Block) :
    write id f w = w.allOrNothing (w.change id f) := by
  rw [write, look_bind, Workspace.change]
  cases w.find id <;> rfl

theorem write_of_mem (hid : id ∈ w.ids) (f : Block → Block) :
    write id f w = .ok ⟨⟩ (w.modify id f) := by
  rw [write_eq, change_of_mem hid]
  rfl

/-- A second block can be written to after the first one. -/
theorem write_write_of_mem {other : String} (hid : id ∈ w.ids) (hother : other ∈ w.ids)
    {f g : Block → Block} (hf : ∀ b, (f b).id = b.id) :
    (do write id f; write other g : InPlace Unit) w =
      .ok ⟨⟩ ((w.modify id f).modify other g) := by
  show EStateM.bind (write id f) (fun _ => write other g) w = _
  rw [EStateM.bind, write_of_mem hid]
  exact write_of_mem (by rwa [ids_modify w id hf]) g

/-- **Hanging a block on another one writes all or nothing**, in whatever place. -/
theorem hang_inPlace (w : Workspace) {parent child : String} (occupied : Block → Bool)
    (refusal : EditError) {f g : Block → Block} (hf : ∀ b, (f b).id = b.id) :
    (do
      let p ← look (·.checkAttach parent child)
      if occupied p then throw refusal
      write parent f
      write child g : InPlace Unit) w =
    w.allOrNothing (do
      let p ← w.checkAttach parent child
      if occupied p then throw refusal
      return (w.modify parent f).modify child g) := by
  rw [look_bind]
  cases hcheck : w.checkAttach parent child with
  | error e => rfl
  | ok p =>
    obtain ⟨hp, hchild, -, -⟩ := checkAttach_eq_ok hcheck
    have hwrites := write_write_of_mem (mem_ids_of_get? hp) hchild (g := g) hf
    cases hoccupied : occupied p with
    | true =>
      simp only [bind, Except.bind, hoccupied]
      rfl
    | false =>
      simp only [bind, Except.bind, hoccupied]
      exact hwrites

/-- A block that hangs on nothing has no parent to forget. -/
theorem modify_of_root (hnodup : w.ids.Nodup) (hroot : w.parentOf id = none) :
    (w.modify id fun b => { b with parent := none }) = w := by
  refine congrArg Workspace.mk ((List.map_congr_left fun b hb => ?_).trans (List.map_id _))
  split
  · next hid =>
    obtain rfl := beq_iff_eq.1 hid
    rw [parentOf_of_get? (get?_of_mem hnodup hb)] at hroot
    rw [← hroot]
    rfl
  · rfl

/-- **Taking a block off a linked workspace writes all or nothing.** -/
theorem Linked.takeOff_eq (h : Linked w) (id : String) :
    takeOff id w = w.allOrNothing (w.disconnect id) := by
  rw [takeOff, look_bind, Workspace.disconnect]
  cases hfind : w.find id with
  | error e => rfl
  | ok b =>
    have hb := find_eq_ok hfind
    have hid := mem_ids_of_get? hb
    cases hp : b.parent with
    | none =>
      have hroot : w.parentOf id = none := by rw [parentOf_of_get? hb, hp]
      have hwrite := write_of_mem hid fun b => { b with parent := none }
      rw [modify_of_root h.nodup hroot] at hwrite
      simp only [bind, Except.bind, EStateM.bind, hwrite, hp]
      rfl
    | some p =>
      have hparent : p.id ∈ w.ids := h.parent_mem_ids (by rw [parentOf_of_get? hb, hp])
      have hwrites := write_write_of_mem hid hparent (f := fun b => { b with parent := none })
        (g := fun b => taken b p.link id) fun _ => rfl
      have hkept : p.id ∈ (w.modify id fun b => { b with parent := none }).ids := by
        rw [ids_modify]
        · exact hparent
        · exact fun _ => rfl
      have hchange := change_of_mem hkept fun b => taken b p.link id
      simp only [bind, Except.bind, hp]
      exact hwrites.trans (congrArg (allOrNothing w) hchange).symm

/-- **An edit of a linked workspace writes all or nothing**, and what it writes is what the operation
gives. -/
theorem Linked.inPlace_eq (h : Linked w) (e : Edit) : e.inPlace w = w.allOrNothing (e.apply w) := by
  cases e with
  | add id type =>
    rw [Edit.inPlace, look_bind, Edit.apply]
    cases w.add id type <;> rfl
  | mark id shadow => exact write_eq w id _
  | setField id name value => exact write_eq w id _
  | setMutation id key value => exact write_eq w id _
  | setPosition id x y => exact write_eq w id _
  | connectInput parent name child => exact hang_inPlace w _ _ fun _ => rfl
  | connectNext block child => exact hang_inPlace w _ _ fun _ => rfl
  | disconnect id => exact h.takeOff_eq id
  | remove id =>
    show EStateM.bind (takeOff id) (fun _ => update (·.eraseBelow [id])) w = _
    rw [EStateM.bind, h.takeOff_eq, Edit.apply, Workspace.remove]
    cases w.disconnect id <;> rfl

end Workspace
end VisualBlocks

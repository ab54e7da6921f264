import Mathlib.Data.List.Nodup
import Mathlib.Data.String.Basic
import VisualBlocks.Proofs.Workspace.Editing

/-!
# The slots of a workspace

A block can hang below another one or in one of its inputs, so each block has a slot for what
follows it and a slot for each name of an input.  A workspace is `Shaped` when its blocks form
trees, as they are seen from the slots: what a slot holds is there, a block has a parent exactly if
one slot of that parent holds it, and then no other slot anywhere does.

* `Table.Ordered` says that a table has its names in ascending order, each of them once.  The
  operations on tables keep it, and it makes a look-up see every entry.
* `Workspace.Filed` is what linked workspaces still lack: blocks have names, and their inputs are
  ordered.
* **A linked and filed workspace is shaped** (`Linked.shaped`).
-/

set_option autoImplicit false

namespace VisualBlocks

/-! ## Slots -/

/-- A place on a block where another block can hang. -/
inductive Slot where
  | next
  | input (name : String)
deriving Repr, DecidableEq, Inhabited

/-- How a block hangs on the one whose slot it stands in. -/
def Slot.link : Slot → Link
  | .next => .next
  | .input _ => .input

/-- The block in a slot. -/
def Block.slot? (b : Block) : Slot → Option String
  | .next => b.next
  | .input name => b.inputs.get? name

theorem Block.mem_hanging_iff {b : Block} (h : b.inputs.Ordered) {link : Link} {child : String} :
    child ∈ b.hanging link ↔ ∃ s : Slot, s.link = link ∧ b.slot? s = some child := by
  cases link with
  | next =>
    rw [hanging, Option.mem_toList]
    refine ⟨fun hnext => ⟨.next, rfl, hnext⟩, ?_⟩
    rintro ⟨_ | _, hlink, hslot⟩
    · exact hslot
    · cases hlink
  | input =>
    rw [hanging, h.mem_values_iff]
    constructor
    · rintro ⟨name, hname⟩
      exact ⟨.input name, rfl, hname⟩
    · rintro ⟨_ | name, hlink, hslot⟩
      · cases hlink
      · exact ⟨name, hslot⟩

/-- If no block hangs twice by one link, then each block stands in one slot of that link. -/
theorem Block.slot_unique {b : Block} (h : b.inputs.Ordered) (hdistinct : b.inputs.values.Nodup)
    {s s' : Slot} {child : String} (hs : b.slot? s = some child) (hs' : b.slot? s' = some child)
    (hlink : s'.link = s.link) : s' = s := by
  rcases s with _ | name <;> rcases s' with _ | name'
  · rfl
  · cases hlink
  · cases hlink
  · rw [h.name_unique hdistinct hs' hs]

namespace Workspace

variable {w w' : Workspace} {id : String} {b : Block}

/-- The block in a slot of the block with an identifier. -/
def slot? (w : Workspace) (id : String) (s : Slot) : Option String :=
  (w.get? id).bind (·.slot? s)

theorem slot?_of_get? (h : w.get? id = some b) (s : Slot) : w.slot? id s = b.slot? s := by
  rw [slot?, h, Option.bind_some]

/-- The block stands in this slot, and in no other slot of any block. -/
def OnlyIn (w : Workspace) (child id : String) (s : Slot) : Prop :=
  ∀ id' s', w.slot? id' s' = some child ↔ id' = id ∧ s' = s

/-- The block is `a`, or it stands in a slot of a block of which this holds. -/
inductive Below (w : Workspace) (a : String) : String → Prop
  | refl : Below w a a
  | slot {owner id : String} {s : Slot} (hs : w.slot? owner s = some id) (h : Below w a owner) :
      Below w a id

/-- The blocks on the way up from a block: the block, what it hangs on, what that one hangs on, and
so on, until a block hangs on nothing. -/
inductive WayUp (w : Workspace) : String → List String → Prop
  | root {id : String} (h : w.parentOf id = none) : WayUp w id [id]
  | up {id : String} {p : Parent} {path : List String} (h : w.parentOf id = some p)
      (rest : WayUp w p.id path) : WayUp w id (id :: path)

/-- **The blocks form trees**, as the slots show it. -/
structure Shaped (w : Workspace) : Prop where
  /-- A block is found under its own identifier, which is not empty. -/
  key (id : String) (b : Block) : w.get? id = some b → b.id = id ∧ id ≠ ""
  /-- A slot holds a block that is there. -/
  present (id : String) (s : Slot) (child : String) : w.slot? id s = some child → child ∈ w.ids
  /-- Of the blocks with a parent by an input, each stands in one input of that parent. -/
  input (child p : String) :
    w.parentOf child = some ⟨p, .input⟩ ↔ ∃ name, w.OnlyIn child p (.input name)
  /-- Of the blocks with a parent by a chain, each follows that parent. -/
  next (child p : String) : w.parentOf child = some ⟨p, .next⟩ ↔ w.OnlyIn child p .next
  /-- A block without a parent stands in no slot. -/
  root (child : String) : w.parentOf child = none ↔ ∀ id s, w.slot? id s ≠ some child
  /-- The way up from a block ends, at a block that hangs on nothing, and all blocks on the way are
  there. -/
  up (id : String) : id ∈ w.ids → w.WayUp id (w.ascent id) ∧ w.ascent id ⊆ w.ids

/-! ## From links to slots -/

/-- Blocks have names, and their inputs are ordered. -/
structure Filed (w : Workspace) : Prop where
  named : "" ∉ w.ids
  ordered : ∀ b ∈ w.blocks, b.inputs.Ordered

theorem Filed.ordered_of_get? (h : Filed w) (hb : w.get? id = some b) : b.inputs.Ordered :=
  h.ordered b (List.mem_of_find?_eq_some hb)

/-- **What stands in a slot has the owner of the slot as its parent.** -/
theorem Linked.exists_slot_iff (h : Linked w) (hfiled : Filed w) {child : String} {p : Parent} :
    w.parentOf child = some p ↔ ∃ s : Slot, s.link = p.link ∧ w.slot? p.id s = some child := by
  rw [← h.links p.id p.link child]
  cases hp : w.get? p.id with
  | none => simp [hanging_of_none hp, slot?, hp]
  | some b =>
    rw [hanging_of_get? hp, Block.mem_hanging_iff (hfiled.ordered_of_get? hp)]
    simp only [slot?_of_get? hp]

/-- **The way through the slots is the way through the parents.** -/
theorem Linked.below_iff_above (h : Linked w) (hfiled : Filed w) {a : String} :
    w.Below a id ↔ w.Above a id := by
  constructor
  · intro hbelow
    induction hbelow with
    | refl => exact .refl
    | @slot owner id s hs _ ih =>
      exact .up ((h.exists_slot_iff hfiled (p := ⟨owner, s.link⟩)).2 ⟨s, rfl, hs⟩) ih
  · intro habove
    induction habove with
    | refl => exact .refl
    | up hp _ ih =>
      obtain ⟨s, -, hs⟩ := (h.exists_slot_iff hfiled).1 hp
      exact .slot hs ih

/-- **A block stands in one slot at most.** -/
theorem Linked.onlyIn (h : Linked w) (hfiled : Filed w) {child p : String} {s : Slot}
    (hslot : w.slot? p s = some child) : w.OnlyIn child p s := by
  have hparent : w.parentOf child = some ⟨p, s.link⟩ :=
    (h.exists_slot_iff hfiled).2 ⟨s, rfl, hslot⟩
  refine fun id' s' => ⟨fun hslot' => ?_, ?_⟩
  · have hparent' : w.parentOf child = some ⟨id', s'.link⟩ :=
      (h.exists_slot_iff hfiled).2 ⟨s', rfl, hslot'⟩
    rw [hparent, Option.some_inj, Parent.mk.injEq] at hparent'
    obtain ⟨rfl, hlink⟩ := hparent'
    obtain ⟨b, hb, hs⟩ := Option.bind_eq_some_iff.1 hslot
    rw [slot?_of_get? hb] at hslot'
    have hdistinct := h.distinct p .input
    rw [hanging_of_get? hb] at hdistinct
    exact ⟨rfl, Block.slot_unique (hfiled.ordered_of_get? hb) hdistinct hs hslot' hlink.symm⟩
  · rintro ⟨rfl, rfl⟩
    exact hslot

/-- The way up from a block that has passed only blocks of smaller rank: there are steps enough to
reach the end. -/
theorem wayUp_climb {rank : String → Nat}
    (hrank : ∀ id p, w.parentOf id = some p → rank id < rank p.id) (hpresent : ∀ id p,
      w.parentOf id = some p → p.id ∈ w.ids) {id : String} (hid : id ∈ w.ids) (passed : List String)
    (hnodup : passed.Nodup) (hpassed : ∀ y ∈ passed, y ∈ w.ids ∧ rank y < rank id) :
    w.WayUp id (ascent.climb w (w.blocks.length - passed.length) id) ∧
      ascent.climb w (w.blocks.length - passed.length) id ⊆ w.ids := by
  generalize hfuel : w.blocks.length - passed.length = fuel
  induction fuel generalizing id passed with
  | zero =>
    obtain ⟨-, hlt⟩ := length_lt_of_passed hid hnodup hpassed
    omega
  | succ fuel ih =>
    obtain ⟨hfresh, hlt⟩ := length_lt_of_passed hid hnodup hpassed
    rw [ascent.climb, ← parentOf]
    cases hp : w.parentOf id with
    | none => exact ⟨.root hp, by simpa using hid⟩
    | some p =>
      have hlower : ∀ y ∈ id :: passed, y ∈ w.ids ∧ rank y < rank p.id := by
        intro y hy
        rcases List.mem_cons.1 hy with rfl | hy
        · exact ⟨hid, hrank y p hp⟩
        · exact ⟨(hpassed y hy).1, lt_trans (hpassed y hy).2 (hrank id p hp)⟩
      obtain ⟨hway, hsub⟩ := ih (hpresent id p hp) (id :: passed)
        (List.nodup_cons.2 ⟨hfresh, hnodup⟩) hlower (by rw [List.length_cons]; omega)
      exact ⟨.up hp hway, List.cons_subset.2 ⟨hid, hsub⟩⟩

theorem Linked.parent_mem_ids (h : Linked w) {p : Parent} (hp : w.parentOf id = some p) :
    p.id ∈ w.ids :=
  mem_ids_of_hanging ((h.links p.id p.link id).2 hp)

/-- **A linked and filed workspace is shaped.** -/
theorem Linked.shaped (h : Linked w) (hfiled : Filed w) : Shaped w where
  key id b hb := by
    refine ⟨get?_id hb, ?_⟩
    rintro rfl
    exact hfiled.named (mem_ids_of_get? hb)
  present id s child hslot :=
    mem_ids_of_parentOf ((h.exists_slot_iff hfiled (p := ⟨id, s.link⟩)).2 ⟨s, rfl, hslot⟩)
  input child p := by
    rw [h.exists_slot_iff hfiled]
    constructor
    · rintro ⟨_ | name, hlink, hslot⟩
      · cases hlink
      · exact ⟨name, h.onlyIn hfiled hslot⟩
    · rintro ⟨name, honly⟩
      exact ⟨.input name, rfl, (honly p _).2 ⟨rfl, rfl⟩⟩
  next child p := by
    rw [h.exists_slot_iff hfiled]
    constructor
    · rintro ⟨_ | name, hlink, hslot⟩
      · exact h.onlyIn hfiled hslot
      · cases hlink
    · intro honly
      exact ⟨.next, rfl, (honly p _).2 ⟨rfl, rfl⟩⟩
  root child := by
    refine ⟨fun hroot id s hslot => ?_, fun hfree => ?_⟩
    · have hparent := (h.exists_slot_iff hfiled (p := ⟨id, s.link⟩)).2 ⟨s, rfl, hslot⟩
      rw [hroot] at hparent
      cases hparent
    · rw [Option.eq_none_iff_forall_ne_some]
      intro p hp
      obtain ⟨s, -, hslot⟩ := (h.exists_slot_iff hfiled).1 hp
      exact hfree p.id s hslot
  up id hid := by
    obtain ⟨rank, hrank⟩ := h.acyclic
    exact wayUp_climb hrank (fun _ _ => h.parent_mem_ids) hid [] List.nodup_nil nofun

theorem change_of_mem (hid : id ∈ w.ids) (f : Block → Block) :
    w.change id f = .ok (w.modify id f) := by
  obtain ⟨b, hb⟩ := Option.isSome_iff_exists.1 (get?_isSome_iff.2 hid)
  rw [Workspace.change, find, hb]
  rfl

/-- In a linked workspace every block can be taken off. -/
theorem Linked.exists_disconnect (h : Linked w) (hid : id ∈ w.ids) :
    ∃ w', w.disconnect id = .ok w' := by
  obtain ⟨b, hb⟩ := Option.isSome_iff_exists.1 (get?_isSome_iff.2 hid)
  rw [Workspace.disconnect, find, hb]
  simp only [bind, Except.bind]
  cases hp : b.parent with
  | none => exact ⟨w, rfl⟩
  | some p =>
    have hparent : p.id ∈ w.ids := h.parent_mem_ids (by rw [parentOf_of_get? hb, hp])
    refine ⟨_, change_of_mem ?_ _⟩
    rwa [ids_modify]
    exact fun _ => rfl

/-! ## Filed workspaces -/

theorem filed_empty : Filed empty := ⟨List.not_mem_nil, nofun⟩

theorem Filed.modify (h : Filed w) (id : String) {f : Block → Block} (hid : ∀ b, (f b).id = b.id)
    (hinputs : ∀ b : Block, b.inputs.Ordered → (f b).inputs.Ordered) : Filed (w.modify id f) := by
  refine ⟨by rw [ids_modify w id hid]; exact h.named, fun b hb => ?_⟩
  obtain ⟨a, ha, rfl⟩ := List.mem_map.1 hb
  split
  · exact hinputs a (h.ordered a ha)
  · exact h.ordered a ha

theorem Filed.change (h : Filed w) {f : Block → Block} (hf : w.change id f = .ok w')
    (hid : ∀ b, (f b).id = b.id)
    (hinputs : ∀ b : Block, b.inputs.Ordered → (f b).inputs.Ordered) : Filed w' := by
  obtain ⟨b, -, rfl⟩ := change_eq_ok hf
  exact h.modify id hid hinputs

theorem Filed.add (h : Filed w) {type : String} (hadd : w.add id type = .ok w') : Filed w' := by
  have hne : id ≠ "" := by
    rintro rfl
    simp [Workspace.add] at hadd
  obtain ⟨-, rfl⟩ := add_eq_ok hadd
  refine ⟨?_, fun b hb => ?_⟩
  · rw [ids, List.map_append, List.mem_append]
    rintro (hmem | hmem)
    · exact h.named hmem
    · exact hne (List.mem_singleton.1 hmem).symm
  · rcases List.mem_append.1 hb with hb | hb
    · exact h.ordered b hb
    · obtain rfl := List.mem_singleton.1 hb
      exact Table.ordered_empty

theorem Filed.connectInput (h : Filed w) {parent name child : String}
    (hconnect : w.connectInput parent name child = .ok w') : Filed w' := by
  obtain ⟨p, -, -, rfl⟩ := connectInput_eq_ok hconnect
  refine Filed.modify (Filed.modify h parent ?_ ?_) child ?_ ?_
  · exact fun _ => rfl
  · exact fun b hb => hb.set name child
  · exact fun _ => rfl
  · exact fun _ hb => hb

theorem Filed.connectNext (h : Filed w) {parent child : String}
    (hconnect : w.connectNext parent child = .ok w') : Filed w' := by
  obtain ⟨p, -, -, rfl⟩ := connectNext_eq_ok hconnect
  refine Filed.modify (Filed.modify h parent ?_ ?_) child ?_ ?_
  · exact fun _ => rfl
  · exact fun _ hb => hb
  · exact fun _ => rfl
  · exact fun _ hb => hb

theorem Filed.disconnect (h : Filed w) (hdisconnect : w.disconnect id = .ok w') : Filed w' := by
  obtain ⟨b, -, ⟨-, rfl⟩ | ⟨p, -, rfl⟩⟩ := disconnect_eq_ok hdisconnect
  · exact h
  · refine Filed.modify (Filed.modify h id ?_ ?_) p.id ?_ ?_
    · exact fun _ => rfl
    · exact fun _ hb => hb
    · exact fun b => taken_id b p.link id
    · intro b hb
      cases p.link with
      | next => exact hb
      | input => exact hb.filterValues _

theorem Filed.without (h : Filed w) (gone : List String) : Filed (w.without gone) :=
  ⟨fun hmem => h.named (mem_ids_without.1 hmem).1,
    fun b hb => h.ordered b (List.mem_filter.1 hb).1⟩

theorem Filed.remove (h : Filed w) (hremove : w.remove id = .ok w') : Filed w' := by
  obtain ⟨u, gone, hdisconnect, -, rfl⟩ := remove_eq_ok hremove
  exact (h.disconnect hdisconnect).without gone

end Workspace
end VisualBlocks

import VisualBlocks.Proofs.Table
import VisualBlocks.Proofs.Workspace.Links

/-!
# Edited workspaces

Each operation on workspaces keeps them linked (`Linked.step`).  Deletion goes through states that
are not linked, so it is described as a whole: `eraseBelow` drops a set of blocks that holds, with a
block, all that hangs on it (`eraseBelow_eq`).
-/

set_option autoImplicit false

namespace VisualBlocks
namespace Workspace

variable {w w' : Workspace} {id : String}

/-! ## Changes of one block -/

/-- What comes after a step that went well. -/
theorem bind_eq_ok {ε α β : Type} {x : Except ε α} {f : α → Except ε β} {b : β}
    (h : x >>= f = .ok b) : ∃ a, x = .ok a ∧ f a = .ok b := by
  cases x with
  | ok a => exact ⟨a, rfl, h⟩
  | error e => cases h

theorem find_eq_ok {b : Block} (h : w.find id = .ok b) : w.get? id = some b := by
  rw [find] at h
  split at h
  · next hget =>
    obtain rfl := Except.ok.inj h
    exact hget
  · cases h

theorem change_eq_ok {f : Block → Block} (h : w.change id f = .ok w') :
    ∃ b, w.get? id = some b ∧ w' = w.modify id f := by
  rw [change] at h
  obtain ⟨b, hfind, h⟩ := bind_eq_ok h
  exact ⟨b, find_eq_ok hfind, (Except.ok.inj h).symm⟩

theorem parentOf_modify (w : Workspace) (id other : String) {f : Block → Block}
    (hf : ∀ b, (f b).id = b.id) :
    (w.modify id f).parentOf other =
      if other = id then (w.get? other).bind fun b => (f b).parent else w.parentOf other := by
  rw [parentOf, get?_modify w id other hf, parentOf]
  by_cases ho : other = id
  · rw [if_pos ho, ho, Option.bind_map, beq_self_eq_true]
    rfl
  · rw [if_neg ho, beq_false_of_ne ho, Option.bind_map]
    rfl

theorem hanging_modify (w : Workspace) (id other : String) {f : Block → Block}
    (hf : ∀ b, (f b).id = b.id) (link : Link) :
    (w.modify id f).hanging other link =
      if other = id then ((w.get? other).map fun b => (f b).hanging link).getD []
      else w.hanging other link := by
  rw [hanging, get?_modify w id other hf, hanging]
  by_cases ho : other = id
  · rw [if_pos ho, ho, Option.map_map, beq_self_eq_true]
    rfl
  · rw [if_neg ho, beq_false_of_ne ho, Option.map_map]
    rfl

/-- A change that does not touch the connections. -/
theorem Linked.relabel (h : Linked w) (id : String) {f : Block → Block}
    (hid : ∀ b, (f b).id = b.id) (hparent : ∀ b, (f b).parent = b.parent)
    (hhanging : ∀ b link, (f b).hanging link = b.hanging link) : Linked (w.modify id f) := by
  refine h.of_eq ?_ (fun other => ?_) fun other link => ?_
  · rw [ids_modify w id hid]
    exact h.nodup
  · rw [parentOf_modify w id other hid]
    simp only [hparent]
    exact ite_self _
  · rw [hanging_modify w id other hid]
    simp only [hhanging]
    exact ite_self _

theorem Linked.change (h : Linked w) {f : Block → Block} (hf : w.change id f = .ok w')
    (hid : ∀ b, (f b).id = b.id) (hparent : ∀ b, (f b).parent = b.parent)
    (hhanging : ∀ b link, (f b).hanging link = b.hanging link) : Linked w' := by
  obtain ⟨b, -, rfl⟩ := change_eq_ok hf
  exact h.relabel id hid hparent hhanging

theorem hanging_congr {a b : Block} (hinputs : a.inputs = b.inputs) (hnext : a.next = b.next)
    (link : Link) : a.hanging link = b.hanging link := by
  cases link with
  | next => rw [Block.hanging, Block.hanging, hnext]
  | input => rw [Block.hanging, Block.hanging, hinputs]

theorem Linked.setField (h : Linked w) {name value : String}
    (hset : w.setField id name value = .ok w') : Linked w' :=
  h.change hset (fun _ => rfl) (fun _ => rfl) fun _ => hanging_congr rfl rfl

theorem Linked.setMutation (h : Linked w) {key value : String}
    (hset : w.setMutation id key value = .ok w') : Linked w' :=
  h.change hset (fun _ => rfl) (fun _ => rfl) fun _ => hanging_congr rfl rfl

theorem Linked.setPosition (h : Linked w) {x y : Int} (hset : w.setPosition id x y = .ok w') :
    Linked w' :=
  h.change hset (fun _ => rfl) (fun _ => rfl) fun _ => hanging_congr rfl rfl

/-! ## New blocks -/

theorem add_eq_ok {type : String} (h : w.add id type = .ok w') :
    w.get? id = none ∧ w' = ⟨w.blocks ++ [Block.fresh id type]⟩ := by
  rw [add] at h
  split at h
  · cases h
  · split at h
    · cases h
    · next hnew =>
      refine ⟨?_, (Except.ok.inj h).symm⟩
      rwa [contains, Option.isSome_iff_ne_none, not_not] at hnew

theorem get?_append (w : Workspace) (b : Block) (other : String) :
    (⟨w.blocks ++ [b]⟩ : Workspace).get? other =
      (w.get? other).or (if b.id = other then some b else none) := by
  rw [get?, get?, List.find?_append, List.find?_singleton]
  simp only [beq_iff_eq]

/-- **A new block hangs on nothing, and nothing hangs on it.** -/
theorem Linked.add (h : Linked w) {type : String} (hadd : w.add id type = .ok w') : Linked w' := by
  obtain ⟨hnone, rfl⟩ := add_eq_ok hadd
  have hget (other : String) (hother : w.get? other = none) :
      (⟨w.blocks ++ [Block.fresh id type]⟩ : Workspace).get? other =
        if id = other then some (Block.fresh id type) else none := by
    rw [get?_append, hother, Option.none_or]
    rfl
  have hold (other : String) {b : Block} (hother : w.get? other = some b) :
      (⟨w.blocks ++ [Block.fresh id type]⟩ : Workspace).get? other = some b := by
    rw [get?_append, hother, Option.some_or]
  refine h.of_eq ?_ (fun other => ?_) fun other link => ?_
  · rw [ids, List.map_append, List.nodup_append]
    have hfresh : id ∉ w.ids := by
      rw [← get?_isSome_iff, hnone]
      exact Bool.false_ne_true
    refine ⟨h.nodup, List.pairwise_singleton _ _, fun a ha b hb => ?_⟩
    rintro rfl
    obtain rfl : a = id := List.mem_singleton.1 hb
    exact hfresh ha
  · cases hother : w.get? other with
    | none =>
      rw [parentOf, parentOf, hget other hother, hother]
      split <;> rfl
    | some b => rw [parentOf, parentOf, hold other hother, hother]
  · cases hother : w.get? other with
    | none =>
      rw [hanging, hanging, hget other hother, hother]
      split
      · cases link <;> rfl
      · rfl
    | some b => rw [hanging, hanging, hold other hother, hother]

/-! ## Connections -/

theorem checkAttach_eq_ok {parent child : String} {p : Block}
    (h : w.checkAttach parent child = .ok p) :
    w.get? parent = some p ∧ child ∈ w.ids ∧ w.parentOf child = none ∧
      child ∉ w.ascent parent := by
  rw [checkAttach] at h
  obtain ⟨q, hparent, h⟩ := bind_eq_ok h
  obtain ⟨c, hchild, h⟩ := bind_eq_ok h
  have hget := find_eq_ok hchild
  cases hroot : c.parent with
  | some _ =>
    simp only [bind, Except.bind, hroot] at h
    cases h
  | none =>
    cases hascent : (w.ascent parent).contains child with
    | true =>
      simp only [bind, Except.bind, hroot, hascent] at h
      cases h
    | false =>
      simp only [bind, Except.bind, hroot, hascent] at h
      obtain rfl := Except.ok.inj h
      refine ⟨find_eq_ok hparent, mem_ids_of_get? hget, ?_, ?_⟩
      · rw [parentOf_of_get? hget, hroot]
      · rw [← List.contains_iff_mem, hascent]
        exact Bool.false_ne_true

/-- The two changes by which a block is hung on another one. -/
theorem Linked.hang (h : Linked w) {parent child : String} {link : Link} {p : Block}
    (hcheck : w.checkAttach parent child = .ok p) {f : Block → Block} (hid : ∀ b, (f b).id = b.id)
    (hparent : ∀ b, (f b).parent = b.parent)
    (hhanging : ∀ l, ((f p).hanging l).Perm
      (if l = link then child :: p.hanging l else p.hanging l)) :
    Linked ((w.modify parent f).modify child fun b => { b with parent := some ⟨parent, link⟩ }) := by
  obtain ⟨hp, hchild, hroot, hascent⟩ := checkAttach_eq_ok hcheck
  have hbelow : ¬ Above w child parent := fun habove => hascent (h.mem_ascent habove hchild)
  have hset (b : Block) : ({ b with parent := some ⟨parent, link⟩ } : Block).id = b.id := rfl
  refine h.attach parent child link ?_ hroot hbelow (fun id => ?_) fun id l => ?_
  · rw [ids_modify _ child hset, ids_modify w parent hid]
    exact h.nodup
  · rw [parentOf_modify _ child id hset, parentOf_modify w parent id hid]
    split
    · next heq =>
      subst heq
      obtain ⟨c, hc⟩ := Option.isSome_iff_exists.1 (get?_isSome_iff.2 hchild)
      rw [get?_modify w parent id hid, hc]
      rfl
    · simp only [hparent]
      exact ite_self _
  · have hframe : (((w.modify parent f).modify child fun b =>
        { b with parent := some ⟨parent, link⟩ }).hanging id l) = (w.modify parent f).hanging id l := by
      rw [hanging_modify _ child id hset]
      exact ite_self _
    rw [hframe, hanging_modify w parent id hid]
    by_cases hi : id = parent
    · subst hi
      rw [if_pos rfl, hp, hanging_of_get? hp]
      simpa using hhanging l
    · rw [if_neg hi, if_neg fun hplace => hi hplace.1]

theorem connectInput_eq_ok {parent name child : String}
    (h : w.connectInput parent name child = .ok w') :
    ∃ p, w.checkAttach parent child = .ok p ∧ p.inputs.get? name = none ∧
      w' = (w.modify parent fun b => { b with inputs := b.inputs.set name child }).modify child
        fun b => { b with parent := some ⟨parent, .input⟩ } := by
  rw [connectInput] at h
  obtain ⟨p, hcheck, h⟩ := bind_eq_ok h
  split at h
  · cases h
  · next hfree =>
    rw [Table.contains, Option.isSome_iff_ne_none, not_not] at hfree
    exact ⟨p, hcheck, hfree, (Except.ok.inj h).symm⟩

theorem connectNext_eq_ok {parent child : String} (h : w.connectNext parent child = .ok w') :
    ∃ p, w.checkAttach parent child = .ok p ∧ p.next = none ∧
      w' = (w.modify parent fun b => { b with next := some child }).modify child
        fun b => { b with parent := some ⟨parent, .next⟩ } := by
  rw [connectNext] at h
  obtain ⟨p, hcheck, h⟩ := bind_eq_ok h
  split at h
  · cases h
  · next hfree =>
    rw [Option.isSome_iff_ne_none, not_not] at hfree
    exact ⟨p, hcheck, hfree, (Except.ok.inj h).symm⟩

theorem Linked.connectInput (h : Linked w) {parent name child : String}
    (hconnect : w.connectInput parent name child = .ok w') : Linked w' := by
  obtain ⟨p, hcheck, hfree, rfl⟩ := connectInput_eq_ok hconnect
  refine h.hang hcheck (fun _ => rfl) (fun _ => rfl) fun l => ?_
  cases l with
  | next => exact .refl _
  | input => exact Table.values_set_perm p.inputs child hfree

theorem Linked.connectNext (h : Linked w) {parent child : String}
    (hconnect : w.connectNext parent child = .ok w') : Linked w' := by
  obtain ⟨p, hcheck, hfree, rfl⟩ := connectNext_eq_ok hconnect
  refine h.hang hcheck (fun _ => rfl) (fun _ => rfl) fun l => ?_
  cases l with
  | input => exact .refl _
  | next =>
    rw [if_pos rfl, Block.hanging, Block.hanging, hfree]
    exact .refl _

/-! ## Taking blocks off -/

/-- A block without one that hangs on it. -/
def taken (b : Block) (link : Link) (child : String) : Block :=
  match link with
  | .next => { b with next := none }
  | .input => { b with inputs := b.inputs.filterValues (· != child) }

theorem taken_id (b : Block) (link : Link) (child : String) : (taken b link child).id = b.id := by
  cases link <;> rfl

theorem taken_parent (b : Block) (link : Link) (child : String) :
    (taken b link child).parent = b.parent := by
  cases link <;> rfl

/-- What is left on a block when another one is taken off it. -/
theorem hanging_taken {b : Block} {child : String} {place : Link} (hmem : child ∈ b.hanging place)
    (hplace : ∀ link, child ∈ b.hanging link → link = place) (link : Link) :
    (taken b place child).hanging link = (b.hanging link).filter (· != child) := by
  have hkeep (hne : link ≠ place) : (b.hanging link).filter (· != child) = b.hanging link := by
    refine List.filter_eq_self.2 fun x hx => bne_iff_ne.2 ?_
    rintro rfl
    exact hne (hplace link hx)
  cases place with
  | next =>
    cases link with
    | next =>
      have hnext : b.next = some child := Option.mem_toList.1 hmem
      have hgone : [child].filter (· != child) = [] := List.filter_eq_nil_iff.2 (by simp)
      rw [taken, Block.hanging, Block.hanging, hnext]
      exact hgone.symm
    | input => exact (hkeep (by decide)).symm
  | input =>
    cases link with
    | next => exact (hkeep (by decide)).symm
    | input =>
      rw [taken, Block.hanging, Block.hanging, Table.values, Table.values, Table.filterValues,
        List.filter_map]
      rfl

theorem disconnect_eq_ok (h : w.disconnect id = .ok w') :
    ∃ b, w.get? id = some b ∧ ((b.parent = none ∧ w' = w) ∨ ∃ p, b.parent = some p ∧
      w' = (w.modify id fun b => { b with parent := none }).modify p.id fun b =>
        taken b p.link id) := by
  rw [disconnect] at h
  obtain ⟨b, hfind, h⟩ := bind_eq_ok h
  refine ⟨b, find_eq_ok hfind, ?_⟩
  cases hparent : b.parent with
  | none =>
    simp only [hparent] at h
    exact .inl ⟨rfl, (Except.ok.inj h).symm⟩
  | some p =>
    simp only [hparent] at h
    obtain ⟨q, -, rfl⟩ := change_eq_ok h
    exact .inr ⟨p, rfl, rfl⟩

/-- Taking a block off changes the parent of no other block. -/
theorem parentOf_disconnect_eq (hdisconnect : w.disconnect id = .ok w') (x : String) :
    w'.parentOf x = if x = id then none else w.parentOf x := by
  obtain ⟨b, hb, ⟨hroot, rfl⟩ | ⟨p, -, rfl⟩⟩ := disconnect_eq_ok hdisconnect
  · split
    · next heq => rw [heq, parentOf_of_get? hb, hroot]
    · rfl
  · rw [parentOf_modify _ p.id x fun b => taken_id b _ _]
    simp only [taken_parent]
    rw [← parentOf, ite_self, parentOf_modify w id x fun _ => by rfl]
    split
    · cases w.get? x <;> rfl
    · rfl

/-- A block that has been taken off hangs on nothing. -/
theorem parentOf_disconnect (hdisconnect : w.disconnect id = .ok w') : w'.parentOf id = none := by
  rw [parentOf_disconnect_eq hdisconnect, if_pos rfl]

/-- Taking a block off gives no block a parent. -/
theorem parentOf_of_disconnect (hdisconnect : w.disconnect id = .ok w') {x : String} {p : Parent}
    (hx : w'.parentOf x = some p) : w.parentOf x = some p := by
  rw [parentOf_disconnect_eq hdisconnect] at hx
  split at hx
  · cases hx
  · exact hx

theorem Linked.disconnect (h : Linked w) (hdisconnect : w.disconnect id = .ok w') :
    Linked w' := by
  obtain ⟨b, hb, ⟨-, rfl⟩ | ⟨p, hp, rfl⟩⟩ := disconnect_eq_ok hdisconnect
  · exact h
  have hparent : w.parentOf id = some p := by rw [parentOf_of_get? hb, hp]
  have hid (b : Block) : ({ b with parent := none } : Block).id = b.id := rfl
  have hmem : id ∈ w.hanging p.id p.link := (h.links _ _ _).2 hparent
  have hplace (x : String) (link : Link) (hx : id ∈ w.hanging x link) :
      x = p.id ∧ link = p.link := by
    rw [h.links, hparent, Option.some_inj] at hx
    rw [hx]
    exact ⟨rfl, rfl⟩
  refine h.detach id ?_ (parentOf_disconnect_eq hdisconnect) fun x link => ?_
  · rw [ids_modify _ p.id fun b => taken_id b _ _, ids_modify w id hid]
    exact h.nodup
  · have hframe : (w.modify id fun b => { b with parent := none }).hanging x link =
        w.hanging x link := by
      rw [hanging_modify w id x hid]
      exact ite_self _
    rw [hanging_modify _ p.id x fun b => taken_id b _ _]
    by_cases hx : x = p.id
    · subst hx
      obtain ⟨q, hq⟩ := Option.isSome_iff_exists.1 (get?_isSome_iff.2 (mem_ids_of_hanging hmem))
      rw [hanging_of_get? hq] at hmem
      have hlinks : ∀ link, id ∈ q.hanging link → link = p.link := by
        intro link hlink
        rw [← hanging_of_get? hq] at hlink
        exact (hplace _ link hlink).2
      have hother : ¬ p.id = id := by
        rintro heq
        obtain ⟨rank, hrank⟩ := h.acyclic
        exact Nat.lt_irrefl _ (heq ▸ hrank id p hparent)
      rw [if_pos rfl, get?_modify w id p.id hid, hq, beq_false_of_ne hother, hanging_of_get? hq,
        ← hanging_taken hmem hlinks]
      rfl
    · rw [if_neg hx, hframe, List.filter_eq_self.2]
      intro y hy
      rw [bne_iff_ne]
      rintro rfl
      exact hx (hplace x link hy).1

/-! ## Deletion -/

/-- The workspace without the blocks of some identifiers. -/
def without (w : Workspace) (gone : List String) : Workspace :=
  ⟨w.blocks.filter fun b => !gone.contains b.id⟩

theorem get?_without (w : Workspace) (gone : List String) (id : String) :
    (w.without gone).get? id = if id ∈ gone then none else w.get? id := by
  rw [get?, get?, without, List.find?_filter]
  split
  · next hgone =>
    rw [List.find?_eq_none]
    intro b _ hb
    obtain ⟨hstays, heq⟩ := of_decide_eq_true hb
    rw [beq_iff_eq.1 heq, List.contains_iff_mem.2 hgone] at hstays
    cases hstays
  · next hstays =>
    congr 1
    funext b
    by_cases hb : b.id = id
    · subst hb
      rw [Bool.eq_false_iff.2 fun h => hstays (List.contains_iff_mem.1 h), beq_self_eq_true]
      rfl
    · rw [beq_false_of_ne hb]
      exact decide_eq_false fun h => Bool.false_ne_true h.2

theorem mem_ids_without {gone : List String} :
    id ∈ (w.without gone).ids ↔ id ∈ w.ids ∧ id ∉ gone := by
  rw [← get?_isSome_iff, get?_without, ← get?_isSome_iff]
  split
  · next h => exact ⟨nofun, fun hid => absurd h hid.2⟩
  · next h => exact ⟨fun hid => ⟨hid, h⟩, And.left⟩

theorem parentOf_without (w : Workspace) (gone : List String) (id : String) :
    (w.without gone).parentOf id = if id ∈ gone then none else w.parentOf id := by
  rw [parentOf, get?_without, parentOf]
  split <;> rfl

theorem hanging_without (w : Workspace) (gone : List String) (id : String) (link : Link) :
    (w.without gone).hanging id link = if id ∈ gone then [] else w.hanging id link := by
  rw [hanging, get?_without, hanging]
  split <;> rfl

theorem erase_eq_without (w : Workspace) (id : String) : w.erase id = w.without [id] := by
  rw [erase, without]
  congr 2
  funext b
  rw [List.contains_cons, List.contains_nil, Bool.or_false]
  rfl

theorem without_without (w : Workspace) (gone gone' : List String) :
    (w.without gone).without gone' = w.without (gone ++ gone') := by
  rw [without, without, without, List.filter_filter]
  congr 2
  funext b
  rw [List.contains_append, Bool.not_or, Bool.and_comm]

/-- The blocks that go when some blocks are deleted with all that hangs on them. -/
structure Goes (w : Workspace) (first gone : List String) : Prop where
  given : ∀ id ∈ first, id ∈ w.ids → id ∈ gone
  below : ∀ id ∈ gone, ∀ link, ∀ child ∈ w.hanging id link, child ∈ w.ids → child ∈ gone
  only : ∀ id ∈ gone, id ∈ first ∨ ∃ up ∈ gone, ∃ link, id ∈ w.hanging up link

theorem mem_below {b : Block} {child : String} :
    child ∈ b.below ↔ ∃ link, child ∈ b.hanging link := by
  rw [Block.below, List.mem_append]
  constructor
  · rintro (h | h)
    · exact ⟨.input, h⟩
    · exact ⟨.next, h⟩
  · rintro ⟨link, h⟩
    cases link with
    | next => exact .inr h
    | input => exact .inl h

/-- One block goes, and then the others do. -/
theorem Goes.cons {pending gone : List String} {b : Block} (hb : w.get? id = some b)
    (h : Goes (w.without [id]) (b.below ++ pending) gone) : Goes w (id :: pending) (id :: gone) := by
  have hmem {x : String} (hx : x ∈ w.ids) (hstays : x ≠ id → x ∈ gone) : x ∈ id :: gone := by
    by_cases heq : x = id
    · exact heq ▸ List.mem_cons_self
    · exact List.mem_cons_of_mem _ (hstays heq)
  have hids {x : String} (hx : x ∈ w.ids) (hne : x ≠ id) : x ∈ (w.without [id]).ids :=
    mem_ids_without.2 ⟨hx, fun hmem => hne (List.mem_singleton.1 hmem)⟩
  have hother {x : String} (hne : x ≠ id) (link : Link) :
      (w.without [id]).hanging x link = w.hanging x link := by
    rw [hanging_without, if_neg fun hmem => hne (List.mem_singleton.1 hmem)]
  refine ⟨fun x hx hin => ?_, fun x hx link child hchild hin => ?_, fun x hx => ?_⟩
  · rcases List.mem_cons.1 hx with rfl | hx
    · exact List.mem_cons_self
    · exact hmem hin fun hne => h.given x (List.mem_append_right _ hx) (hids hin hne)
  · refine hmem hin fun hne => ?_
    by_cases heq : x = id
    · subst heq
      rw [hanging_of_get? hb] at hchild
      have hbelow := mem_below.2 ⟨link, hchild⟩
      exact h.given child (List.mem_append_left _ hbelow) (hids hin hne)
    · have hgone := (List.mem_cons.1 hx).resolve_left heq
      exact h.below x hgone link child (by rwa [hother heq]) (hids hin hne)
  · rcases List.mem_cons.1 hx with rfl | hx
    · exact .inl List.mem_cons_self
    · rcases h.only x hx with hfirst | ⟨up, hup, link, hlink⟩
      · rcases List.mem_append.1 hfirst with hbelow | hpending
        · obtain ⟨link, hlink⟩ := mem_below.1 hbelow
          exact .inr ⟨id, List.mem_cons_self, link, by rwa [hanging_of_get? hb]⟩
        · exact .inl (List.mem_cons_of_mem _ hpending)
      · refine .inr ⟨up, List.mem_cons_of_mem _ hup, link, ?_⟩
        rw [hanging_without] at hlink
        split at hlink
        · cases hlink
        · exact hlink

/-- **Deletion drops the given blocks and what hangs on them, and nothing else.** -/
theorem eraseBelow_eq (w : Workspace) (first : List String) :
    ∃ gone, w.eraseBelow first = w.without gone ∧ Goes w first gone := by
  fun_induction eraseBelow w first with
  | case1 w =>
    refine ⟨[], ?_, nofun, nofun, nofun⟩
    have hall : w.blocks.filter (fun b => !([] : List String).contains b.id) = w.blocks :=
      List.filter_eq_self.2 fun _ _ => rfl
    rw [without, hall]
  | case2 w id pending hnone ih =>
    obtain ⟨gone, heq, hgoes⟩ := ih
    refine ⟨gone, heq, fun x hx hin => ?_, hgoes.below, fun x hx => ?_⟩
    · rcases List.mem_cons.1 hx with rfl | hx
      · rw [← get?_isSome_iff, hnone] at hin
        cases hin
      · exact hgoes.given x hx hin
    · exact (hgoes.only x hx).imp_left (List.mem_cons_of_mem _)
  | case3 w id pending b hb ih =>
    obtain ⟨gone, heq, hgoes⟩ := ih
    rw [erase_eq_without] at hgoes
    refine ⟨id :: gone, ?_, hgoes.cons hb⟩
    rw [heq, erase_eq_without, without_without, List.singleton_append]

/-- **Blocks that nothing else holds can be dropped with all that hangs on them.** -/
theorem Linked.without (h : Linked w) {first gone : List String} (hgoes : Goes w first gone)
    (hroots : ∀ id ∈ first, w.parentOf id = none) : Linked (w.without gone) := by
  refine ⟨?_, fun id link child => ?_, fun id link => ?_, ?_⟩
  · exact h.nodup.sublist (List.filter_sublist.map _)
  · rw [hanging_without, parentOf_without]
    by_cases hup : id ∈ gone
    · rw [if_pos hup]
      refine ⟨nofun, fun hparent => ?_⟩
      split at hparent
      · cases hparent
      · next hstays =>
        have hlink := (h.links id link child).2 hparent
        exact absurd (hgoes.below id hup link child hlink (mem_ids_of_parentOf hparent)) hstays
    · rw [if_neg hup]
      by_cases hchild : child ∈ gone
      · rw [if_pos hchild]
        refine ⟨fun hlink => ?_, nofun⟩
        rw [h.links] at hlink
        rcases hgoes.only child hchild with hfirst | ⟨other, hother, link', hlink'⟩
        · rw [hroots child hfirst] at hlink
          cases hlink
        · rw [h.links, hlink, Option.some_inj, Parent.mk.injEq] at hlink'
          exact absurd (hlink'.1 ▸ hother) hup
      · rw [if_neg hchild]
        exact h.links id link child
  · rw [hanging_without]
    split
    · exact List.nodup_nil
    · exact h.distinct id link
  · obtain ⟨rank, hrank⟩ := h.acyclic
    refine ⟨rank, fun id p hp => ?_⟩
    rw [parentOf_without] at hp
    split at hp
    · cases hp
    · exact hrank id p hp

theorem remove_eq_ok (h : w.remove id = .ok w') :
    ∃ u gone, w.disconnect id = .ok u ∧ Goes u [id] gone ∧ w' = u.without gone := by
  rw [remove] at h
  obtain ⟨u, hdisconnect, h⟩ := bind_eq_ok h
  obtain ⟨gone, heq, hgoes⟩ := eraseBelow_eq u [id]
  exact ⟨u, gone, hdisconnect, hgoes, (Except.ok.inj h).symm.trans heq⟩

theorem Linked.remove (h : Linked w) (hremove : w.remove id = .ok w') : Linked w' := by
  obtain ⟨u, gone, hdisconnect, hgoes, rfl⟩ := remove_eq_ok hremove
  refine (h.disconnect hdisconnect).without hgoes fun x hx => ?_
  obtain rfl := List.mem_singleton.1 hx
  exact parentOf_disconnect hdisconnect

end Workspace
end VisualBlocks

import Mathlib.Data.List.Induction
import VisualBlocks.Proofs.Workspace.Reachable
import VisualBlocks.Proofs.Workspace.Sketch

/-!
# Which workspaces can be built

The operations make workspaces that are `Proper`: linked, with names for all blocks, with texts and
inputs in order, and without shadows, which only files have.  **Every proper workspace can be built**
(`built_iff`), so nothing else can be said of all built workspaces.

The proof takes a workspace apart.  As long as a block hangs on another one it is taken off, and
hanging it back where it was gives the workspace again (`Proper.step_of_disconnect`).  What is left
are single blocks, which are made one after the other, in the order in which they are kept.
-/

set_option autoImplicit false

namespace VisualBlocks

/-- Are the texts of the block in order, and is it no shadow? -/
structure Block.Plain (b : Block) : Prop where
  fields : b.fields.Ordered
  mutation : b.mutation.Ordered
  shadow : b.shadow = false

/-- Does nothing hang on the block, and does it hang on nothing? -/
structure Block.Single (b : Block) : Prop where
  plain : b.Plain
  inputs : b.inputs = .empty
  next : b.next = none
  parent : b.parent = none

/-- A single block is a fresh one with a place and texts. -/
theorem Block.Single.eq_fresh {b : Block} (h : b.Single) :
    b = { Block.fresh b.id b.type with
      x := b.x, y := b.y, fields := .ofList b.fields.entries,
      mutation := .ofList b.mutation.entries } := by
  rw [h.plain.fields.ofList_entries, h.plain.mutation.ofList_entries]
  obtain ⟨⟨-, -, hshadow⟩, hinputs, hnext, hparent⟩ := h
  obtain ⟨⟨type, fields, inputs, mutation, next⟩, id, x, y, shadow, parent⟩ := b
  subst hinputs hnext hparent hshadow
  rfl

namespace Workspace

variable {w w' u : Workspace} {id : String} {b : Block} {bs : List Block}

/-- What is said of all workspaces that the operations make. -/
structure Proper (w : Workspace) : Prop where
  linked : Linked w
  filed : Filed w
  plain : ∀ b ∈ w.blocks, b.Plain

/-! ## What can be built is proper -/

theorem plain_modify (h : ∀ b ∈ w.blocks, b.Plain) {f : Block → Block}
    (hf : ∀ b : Block, b.Plain → (f b).Plain) : ∀ b ∈ (w.modify id f).blocks, b.Plain := by
  refine List.forall_mem_map.2 fun b hb => ?_
  split
  · exact hf b (h b hb)
  · exact h b hb

theorem plain_change (h : ∀ b ∈ w.blocks, b.Plain) {f : Block → Block}
    (hchange : w.change id f = .ok w') (hf : ∀ b : Block, b.Plain → (f b).Plain) :
    ∀ b ∈ w'.blocks, b.Plain := by
  obtain ⟨b, -, rfl⟩ := change_eq_ok hchange
  exact plain_modify h hf

theorem plain_disconnect (h : ∀ b ∈ w.blocks, b.Plain) (hdisconnect : w.disconnect id = .ok w') :
    ∀ b ∈ w'.blocks, b.Plain := by
  obtain ⟨b, -, ⟨-, rfl⟩ | ⟨p, -, rfl⟩⟩ := disconnect_eq_ok hdisconnect
  · exact h
  · refine plain_modify (plain_modify h ?_) ?_
    · exact fun b hb => ⟨hb.1, hb.2, hb.3⟩
    · intro b hb
      cases p.link <;> exact ⟨hb.1, hb.2, hb.3⟩

theorem Proper.step (h : Proper w) (hstep : Step w w') : Proper w' := by
  obtain ⟨e, he⟩ := hstep.edit
  refine ⟨h.linked.step hstep, h.filed.edit he, ?_⟩
  cases hstep with
  | add id type hadd =>
    obtain ⟨-, rfl⟩ := add_eq_ok hadd
    refine List.forall_mem_append.2 ⟨h.plain, List.forall_mem_singleton.2 ?_⟩
    exact ⟨Table.ordered_empty, Table.ordered_empty, rfl⟩
  | setField id name value hset =>
    exact plain_change h.plain hset fun b hb => ⟨hb.1.set name value, hb.2, hb.3⟩
  | setMutation id key value hset =>
    exact plain_change h.plain hset fun b hb => ⟨hb.1, hb.2.set key value, hb.3⟩
  | setPosition id x y hset => exact plain_change h.plain hset fun b hb => ⟨hb.1, hb.2, hb.3⟩
  | connectInput parent name child hconnect =>
    obtain ⟨p, -, -, rfl⟩ := connectInput_eq_ok hconnect
    refine plain_modify (plain_modify h.plain ?_) ?_
    · exact fun b hb => ⟨hb.1, hb.2, hb.3⟩
    · exact fun b hb => ⟨hb.1, hb.2, hb.3⟩
  | connectNext block child hconnect =>
    obtain ⟨p, -, -, rfl⟩ := connectNext_eq_ok hconnect
    refine plain_modify (plain_modify h.plain ?_) ?_
    · exact fun b hb => ⟨hb.1, hb.2, hb.3⟩
    · exact fun b hb => ⟨hb.1, hb.2, hb.3⟩
  | disconnect id hdisconnect => exact plain_disconnect h.plain hdisconnect
  | remove id hremove =>
    obtain ⟨u, gone, hdisconnect, -, rfl⟩ := remove_eq_ok hremove
    exact fun b hb => plain_disconnect h.plain hdisconnect b (List.mem_filter.1 hb).1

theorem Built.proper (h : Built w) : Proper w := by
  induction h with
  | empty => exact ⟨linked_empty, filed_empty, nofun⟩
  | step _ hstep ih => exact ih.step hstep

/-! ## Hanging a block back -/

/-- The way up from a block meets only blocks above it. -/
theorem above_of_mem_climb {fuel : Nat} {a x : String} (h : a ∈ ascent.climb w fuel x) :
    Above w a x := by
  induction fuel generalizing x with
  | zero => cases h
  | succ fuel ih =>
    rw [ascent.climb, ← parentOf] at h
    rcases List.mem_cons.1 h with rfl | h
    · exact .refl
    · cases hp : w.parentOf x with
      | none =>
        rw [hp] at h
        cases h
      | some p =>
        rw [hp] at h
        exact .up hp (ih h)

theorem checkAttach_of_get? {parent child : String} {p : Block} (hp : w.get? parent = some p)
    (hchild : child ∈ w.ids) (hroot : w.parentOf child = none) (hascent : child ∉ w.ascent parent) :
    w.checkAttach parent child = .ok p := by
  obtain ⟨c, hc⟩ := Option.isSome_iff_exists.1 (get?_isSome_iff.2 hchild)
  rw [parentOf_of_get? hc] at hroot
  have hcontains : (w.ascent parent).contains child = false := by
    rw [Bool.eq_false_iff]
    exact fun h => hascent (List.contains_iff_mem.1 h)
  rw [checkAttach, find, find, hp, hc]
  simp only [bind, Except.bind, hroot, hcontains]
  rfl

/-- Two changes of different blocks that are taken back, the second one first. -/
theorem modify_back {x y : String} (hne : y ≠ x) {f f' g g' : Block → Block}
    (hf : ∀ b, (f b).id = b.id) (hg : ∀ b, (g b).id = b.id)
    (hx : ∀ b ∈ w.blocks, b.id = x → f' (f b) = b)
    (hy : ∀ b ∈ w.blocks, b.id = y → g' (g b) = b) :
    (((w.modify x f).modify y g).modify y g').modify x f' = w := by
  obtain ⟨blocks⟩ := w
  simp only [modify, List.map_map]
  refine congrArg Workspace.mk ((List.map_congr_left fun b hb => ?_).trans (List.map_id _))
  simp only [Function.comp_apply, beq_iff_eq]
  by_cases hbx : b.id = x
  · have hby : ¬ x = y := hne.symm
    simp [hbx, hf, hby, hx b hb hbx]
  · by_cases hby : b.id = y
    · simp [hby, hg, hne, hy b hb hby]
    · simp [hbx, hby]

/-- What a block has hung on is not below it. -/
theorem Linked.not_mem_ascent (h : Linked w) {p : Parent} (hp : w.parentOf id = some p)
    (hdisconnect : w.disconnect id = .ok u) : id ∉ u.ascent p.id := by
  obtain ⟨rank, hrank⟩ := h.acyclic
  intro hmem
  have hle := (above_of_mem_climb hmem).rank_le fun x q hx =>
    hrank x q (parentOf_of_disconnect hdisconnect hx)
  exact absurd hle (Nat.not_le_of_lt (hrank id p hp))

/-- Where a block has been taken off there is room for it, and with both ends of the connection
written down again the workspace is as it was. -/
theorem Linked.attach_back (h : Linked w) {p : Parent} (hp : w.parentOf id = some p)
    (hdisconnect : w.disconnect id = .ok u) {q : Block} (hq : w.get? p.id = some q) :
    u.checkAttach p.id id = .ok (taken q p.link id) ∧
      ∀ f : Block → Block, f (taken q p.link id) = q →
        (u.modify p.id f).modify id (fun b => { b with parent := some p }) = w := by
  have hmem := ids_disconnect hdisconnect ▸ mem_ids_of_parentOf hp
  have hroot := parentOf_disconnect hdisconnect
  have hascent := h.not_mem_ascent hp hdisconnect
  have hne : p.id ≠ id := by
    obtain ⟨rank, hrank⟩ := h.acyclic
    exact fun heq => Nat.lt_irrefl _ (heq ▸ hrank id p hp)
  obtain ⟨c, hc, ⟨hnone, -⟩ | ⟨p', hp', rfl⟩⟩ := disconnect_eq_ok hdisconnect
  · rw [parentOf_of_get? hc, hnone] at hp
    cases hp
  obtain rfl : p' = p := Option.some.inj (hp'.symm.trans ((parentOf_of_get? hc).symm.trans hp))
  have hsame {b d : Block} (hb : b ∈ w.blocks) (hd : w.get? b.id = some d) : b = d :=
    Option.some.inj ((get?_of_mem h.nodup hb).symm.trans hd)
  constructor
  · refine checkAttach_of_get? ?_ hmem hroot hascent
    rw [get?_modify _ _ _ fun b => taken_id b _ _, get?_modify w _ _ (by exact fun _ => rfl), hq,
      beq_false_of_ne hne]
    simp
  · intro f hf
    refine modify_back hne (fun _ => rfl) (fun b => taken_id b _ _) (fun b hb hbid => ?_)
      fun b hb hbid => ?_
    · obtain rfl := hsame hb (hbid ▸ hc)
      rw [← hp']
    · obtain rfl := hsame hb (hbid ▸ hq)
      exact hf

/-- **A block that has been taken off can be hung back**, and then the workspace is as it was. -/
theorem Proper.step_of_disconnect (h : Proper w) {p : Parent} (hp : w.parentOf id = some p)
    (hdisconnect : w.disconnect id = .ok u) : Step u w := by
  obtain ⟨q, hq⟩ := Option.isSome_iff_exists.1 (get?_isSome_iff.2 (h.linked.parent_mem_ids hp))
  obtain ⟨hcheck, hback⟩ := h.linked.attach_back hp hdisconnect hq
  have hhanging : id ∈ q.hanging p.link := by
    rw [← hanging_of_get? hq]
    exact (h.linked.links _ _ _).2 hp
  obtain ⟨place, link⟩ := p
  cases link with
  | next =>
    have hnext : q.next = some id := Option.mem_toList.1 hhanging
    refine .connectNext place id ?_
    rw [connectNext, hcheck]
    exact congrArg Except.ok (hback _ (by rw [taken, ← hnext]))
  | input =>
    have hordered := h.filed.ordered_of_get? hq
    have hdistinct := h.linked.distinct place .input
    rw [hanging_of_get? hq] at hdistinct
    obtain ⟨name, hname⟩ := hordered.mem_values_iff.1 hhanging
    obtain ⟨hfree, hset⟩ := hordered.set_filterValues hdistinct hname
    have htaken : (taken q .input id).inputs.contains name = false := by
      rw [taken, Table.contains, hfree]
      rfl
    refine .connectInput place name id ?_
    rw [connectInput, hcheck]
    simp only [bind, Except.bind, htaken]
    exact congrArg Except.ok (hback _ (by rw [taken, hset]))

/-! ## Single blocks -/

/-- The last block can be filled with texts. -/
theorem Built.fill {ps : List Part} (hps : ∀ p ∈ ps, p.isText = true) (h : Built ⟨bs ++ [b]⟩) :
    Built ⟨bs ++ [ps.foldl Part.fill b]⟩ := by
  induction ps generalizing b with
  | nil => exact h
  | cons p ps ih =>
    rw [List.forall_mem_cons] at hps
    have hchange := change_mid h.linked.nodup
    refine ih hps.2 (h.step ?_)
    cases p with
    | field name value => exact .setField b.id name value (hchange _)
    | mutation key value => exact .setMutation b.id key value (hchange _)
    | input name child => cases hps.1
    | next child => cases hps.1
    | fault e => cases hps.1

/-- A block can be made after the others. -/
theorem Built.single (h : Built ⟨bs⟩) (hne : b.id ≠ "") (hnew : b.id ∉ bs.map (·.id))
    (hb : b.Single) : Built ⟨bs ++ [b]⟩ := by
  have hadded := h.step (.add b.id b.type (add_of_free hne hnew b.type))
  have hplaced := hadded.step (.setPosition b.id b.x b.y (change_mid hadded.linked.nodup _))
  have hfilled := (hplaced.fill (isText_fieldParts b.fields.entries)).fill
    (isText_mutationParts b.mutation.entries)
  rw [foldl_mutationParts, foldl_fieldParts] at hfilled
  rw [hb.eq_fresh]
  exact hfilled

/-- Single blocks can be made one after the other. -/
theorem built_of_single (hnodup : (bs.map (·.id)).Nodup) (hnamed : "" ∉ bs.map (·.id))
    (hbs : ∀ b ∈ bs, b.Single) : Built ⟨bs⟩ := by
  induction bs using List.reverseRec with
  | nil => exact .empty
  | append_singleton bs b ih =>
    rw [List.map_append, List.map_singleton] at hnodup hnamed
    rw [List.forall_mem_append, List.forall_mem_singleton] at hbs
    rw [List.mem_append, List.mem_singleton, not_or] at hnamed
    rw [List.nodup_append] at hnodup
    have hnew : b.id ∉ bs.map (·.id) := fun hmem =>
      hnodup.2.2 _ hmem _ (List.mem_singleton_self _) rfl
    exact (ih hnodup.1 hnamed.1 hbs.1).single (Ne.symm hnamed.2) hnew hbs.2

/-- In a proper workspace a block on which nothing can hang is single. -/
theorem Proper.single (h : Proper w) (hroots : ∀ x, w.parentOf x = none) (hb : b ∈ w.blocks) :
    b.Single := by
  have hget := get?_of_mem h.linked.nodup hb
  have hnone (link : Link) : b.hanging link = [] := by
    rw [List.eq_nil_iff_forall_not_mem]
    intro x hx
    rw [← hanging_of_get? hget, h.linked.links, hroots] at hx
    cases hx
  refine ⟨h.plain b hb, ?_, ?_, ?_⟩
  · exact congrArg Table.mk (List.map_eq_nil_iff.1 (hnone .input))
  · exact Option.toList_eq_nil_iff.1 (hnone .next)
  · rw [← parentOf_of_get? hget, hroots]

/-! ## All workspaces that can be built -/

/-- What hangs somewhere is taken off, one block after the other. -/
theorem Proper.built (h : Proper w) : Built w := by
  have hall (hung : List String) {w : Workspace} (h : Proper w)
      (hhung : ∀ x p, w.parentOf x = some p → x ∈ hung) : Built w := by
    induction hung generalizing w with
    | nil =>
      have hroots (x : String) : w.parentOf x = none :=
        Option.eq_none_iff_forall_ne_some.2 fun p hp => List.not_mem_nil (hhung x p hp)
      exact built_of_single h.linked.nodup h.filed.named fun b hb => h.single hroots hb
    | cons x hung ih =>
      have hrest {u : Workspace} (hx : u.parentOf x = none)
          (hparents : ∀ y p, u.parentOf y = some p → w.parentOf y = some p) (y : String)
          (p : Parent) (hp : u.parentOf y = some p) : y ∈ hung := by
        refine (List.mem_cons.1 (hhung y p (hparents y p hp))).resolve_left ?_
        rintro rfl
        rw [hx] at hp
        cases hp
      cases hx : w.parentOf x with
      | none => exact ih h (hrest hx fun _ _ => id)
      | some p =>
        obtain ⟨u, hu⟩ := h.linked.exists_disconnect (mem_ids_of_parentOf hx)
        have hproper := h.step (.disconnect x hu)
        have hbuilt := ih hproper
          (hrest (parentOf_disconnect hu) fun _ _ => parentOf_of_disconnect hu)
        exact hbuilt.step (h.step_of_disconnect hx hu)
  exact hall w.ids h fun x p hp => mem_ids_of_parentOf hp

/-- **The proper workspaces are those that can be built.** -/
theorem built_iff : Built w ↔ Proper w := ⟨Built.proper, Proper.built⟩

end Workspace
end VisualBlocks

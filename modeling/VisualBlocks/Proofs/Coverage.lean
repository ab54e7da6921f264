import VisualBlocks.Proofs.Placeholders
import VisualBlocks.Proofs.Workspace.Reachable

/-!
# Which blocks get into the program

Generation follows the links from block to block, but not all of them.  It passes over an input that
the rule for the block does not read, and over what follows a block whose value is read.  **In a
workspace without warnings a block gets into the program exactly if no such link is above it**
(`clean_covered`), and the inputs that are passed over are of two kinds, which the check admits: the
numbered copies of declared sockets, and other inputs of a block that has changed its shape.

So a workspace without warnings can have blocks that leave no trace (`overlooked_clean`).
-/

set_option autoImplicit false

namespace VisualBlocks

open Generation Lint

namespace Workspace

variable {w : Workspace} {a id child parent : String} {b : Block}

/-! ## Links that generation does not follow -/

/-- The block stands in an input that is read for its value. -/
def IsOperand (w : Workspace) (id : String) : Prop :=
  ∃ parent b name, w.get? parent = some b ∧ b.slot? (.input name) = some id ∧
    .value name ∈ inlets b.type b.mutation

/-- Generation does not follow the link by which the block hangs on another one: the block stands in
an input that the rule for the other block does not read, or it follows a block whose value is
read. -/
inductive Overlooked (w : Workspace) (id : String) : Prop
  | input {parent : String} {b : Block} {name : String} (hb : w.get? parent = some b)
      (hslot : b.slot? (.input name) = some id)
      (hunread : name ∉ (inlets b.type b.mutation).map Inlet.socket)
  | next {parent : String} {b : Block} (hb : w.get? parent = some b)
      (hslot : b.slot? .next = some id) (hoperand : w.IsOperand parent)

/-- Generation comes to the block in the place, if the blocks on the way have rules. -/
inductive Arrives (w : Workspace) : Place → String → Prop
  | root {id : String} (hid : id ∈ w.ids) (hroot : w.parentOf id = none) : Arrives w .chain id
  | inlet {place : Place} {id child : String} {b : Block} {inlet : Inlet} (h : Arrives w place id)
      (hb : w.get? id = some b) (hinlet : inlet ∈ inlets b.type b.mutation)
      (hslot : b.slot? (.input inlet.socket) = some child) : Arrives w inlet.place child
  | next {id child : String} {b : Block} (h : Arrives w .chain id) (hb : w.get? id = some b)
      (hslot : b.slot? .next = some child) : Arrives w .chain child

variable {place : Place}

theorem slot?_eq_some (hb : w.get? id = some b) {s : Slot} (hslot : b.slot? s = some child) :
    w.slot? id s = some child := by
  rw [slot?_of_get? hb, hslot]

/-- A block stands in one slot. -/
theorem Linked.slot_eq (h : Linked w) (hfiled : Filed w) {c : Block} {s s' : Slot}
    (hb : w.get? id = some b) (hslot : b.slot? s = some child)
    (hc : w.get? parent = some c) (hslot' : c.slot? s' = some child) :
    parent = id ∧ c = b ∧ s' = s := by
  obtain ⟨rfl, rfl⟩ := (h.onlyIn hfiled (slot?_eq_some hb hslot) _ _).1 (slot?_eq_some hc hslot')
  exact ⟨rfl, Option.some.inj (hc.symm.trans hb), rfl⟩

theorem Linked.parentOf_slot (h : Linked w) (hfiled : Filed w) {s : Slot}
    (hb : w.get? id = some b) (hslot : b.slot? s = some child) :
    w.parentOf child = some ⟨id, s.link⟩ :=
  (h.exists_slot_iff hfiled).2 ⟨s, rfl, slot?_eq_some hb hslot⟩

/-- **What a chain comes to is in no input that is read for its value.** -/
theorem Arrives.not_isOperand (h : Linked w) (hfiled : Filed w) (harrives : Arrives w .chain id) :
    ¬ w.IsOperand id := by
  rintro ⟨parent, c, name, hc, hslot', hvalue⟩
  generalize hplace : Place.chain = place at harrives
  cases harrives with
  | root hid hroot =>
    rw [h.parentOf_slot hfiled hc hslot'] at hroot
    cases hroot
  | @inlet _ _ _ b inlet _ hb hinlet hslot =>
    obtain ⟨rfl, rfl, hname⟩ := h.slot_eq hfiled hb hslot hc hslot'
    have hsocket : Inlet.socket (.value name) = inlet.socket := Slot.input.inj hname
    have heq := List.inj_on_of_nodup_map (nodup_inlets _ _) hvalue hinlet hsocket
    rw [← heq] at hplace
    cases hplace
  | next _ hb hslot =>
    obtain ⟨-, -, hname⟩ := h.slot_eq hfiled hb hslot hc hslot'
    cases hname

/-- **Where generation comes to, it has followed all links above.** -/
theorem Arrives.not_overlooked (h : Linked w) (hfiled : Filed w) (harrives : Arrives w place id)
    (habove : w.Above a id) : ¬ w.Overlooked a := by
  induction harrives with
  | root hid hroot =>
    obtain rfl := habove.eq_of_root hroot
    rintro (⟨hc, hslot, -⟩ | ⟨hc, hslot, -⟩)
    all_goals
      rw [h.parentOf_slot hfiled hc hslot] at hroot
      cases hroot
  | @inlet _ id child b inlet _ hb hinlet hslot ih =>
    rcases habove.eq_or_up with rfl | ⟨p, hp, habove⟩
    · rintro (⟨hc, hslot', hunread⟩ | ⟨hc, hslot', -⟩)
      · obtain ⟨rfl, rfl, hname⟩ := h.slot_eq hfiled hb hslot hc hslot'
        exact hunread (List.mem_map.2 ⟨inlet, hinlet, (Slot.input.inj hname).symm⟩)
      · obtain ⟨-, -, hname⟩ := h.slot_eq hfiled hb hslot hc hslot'
        cases hname
    · rw [h.parentOf_slot hfiled hb hslot] at hp
      obtain rfl := Option.some.inj hp
      exact ih habove
  | @next id child b harrives hb hslot ih =>
    rcases habove.eq_or_up with rfl | ⟨p, hp, habove⟩
    · rintro (⟨hc, hslot', -⟩ | ⟨hc, hslot', hoperand⟩)
      · obtain ⟨-, -, hname⟩ := h.slot_eq hfiled hb hslot hc hslot'
        cases hname
      · obtain ⟨rfl, -, -⟩ := h.slot_eq hfiled hb hslot hc hslot'
        exact harrives.not_isOperand h hfiled hoperand
    · rw [h.parentOf_slot hfiled hb hslot] at hp
      obtain rfl := Option.some.inj hp
      exact ih habove

/-- **Generation comes to a block if it follows all links above**, by induction on the way up. -/
theorem Linked.arrives (h : Linked w) (hfiled : Filed w) (hid : id ∈ w.ids)
    (hfollowed : ∀ a, w.Above a id → ¬ w.Overlooked a) : ∃ place, Arrives w place id := by
  obtain ⟨hway, -⟩ := (h.shaped hfiled).up id hid
  generalize w.ascent id = path at hway
  induction hway with
  | root hroot => exact ⟨.chain, .root hid hroot⟩
  | @up id p path hp _ ih =>
    obtain ⟨place, harrives⟩ := ih (h.parent_mem_ids hp) fun a habove =>
      hfollowed a (.up hp habove)
    obtain ⟨s, -, hslot⟩ := (h.exists_slot_iff hfiled).1 hp
    obtain ⟨b, hb, hslot⟩ := Option.bind_eq_some_iff.1 hslot
    cases s with
    | input name =>
      by_cases hread : name ∈ (inlets b.type b.mutation).map Inlet.socket
      · obtain ⟨inlet, hinlet, rfl⟩ := List.mem_map.1 hread
        exact ⟨_, harrives.inlet hb hinlet hslot⟩
      · exact absurd (.input hb hslot hread) (hfollowed id .refl)
    | next =>
      cases place with
      | chain => exact ⟨_, harrives.next hb hslot⟩
      | value =>
        have hoperand : w.IsOperand p.id := by
          generalize hplace : Place.value = place at harrives
          cases harrives with
          | root => cases hplace
          | @inlet _ _ _ c inlet _ hc hinlet hslot =>
            cases inlet with
            | value name => exact ⟨_, c, name, hc, hslot, hinlet⟩
            | body name => cases hplace
          | next => cases hplace
        exact absurd (.next hb hslot hoperand) (hfollowed id .refl)

end Workspace

/-! ## Visits -/

section Visits

open Workspace

variable {w : Workspace} {g : Generator} {t c : BlockTree} {place : Place} {e : Entry}

/-- The links of the root of a tree lead to the parts of the tree. -/
theorem slot_input_of_held {b : Block} (hnode : b.toNode = t.node) {socket : String}
    (hc : t.input? socket = some c) : b.slot? (.input socket) = some c.id := by
  rw [Block.slot?, congrArg Node.inputs hnode, BlockTree.node_input?, hc, Option.map_some]

theorem slot_next_of_held {b : Block} (hnode : b.toNode = t.node) (hc : t.next = some c) :
    b.slot? .next = some c.id := by
  rw [Block.slot?, congrArg Node.next hnode, BlockTree.node, hc, Option.map_some]

theorem mem_inlets_of_opened {type : String} {mutation : Table String} {inlet : Inlet}
    (h : inlet ∈ g.opened place type mutation) : inlet ∈ inlets type mutation := by
  rw [Generator.opened] at h
  split at h
  · cases h
  · exact h

/-- A tree is visited only where generation arrives. -/
theorem arrives_of_mem_visits (hheld : w.graph.Holds t) (harrives : Arrives w place t.id)
    (he : e ∈ t.visits g place) : ∃ place, Arrives w place e.id := by
  induction t using BlockTree.induction_parts generalizing place with
  | step t ih =>
    obtain ⟨b, hb, hnode⟩ := get?_of_holds hheld
    rw [BlockTree.visits_eq, List.mem_cons, List.mem_append, List.mem_flatMap] at he
    rcases he with rfl | ⟨inlet, hinlet, he⟩ | he
    · exact ⟨place, harrives⟩
    · obtain ⟨c, hc, he⟩ := BlockTree.mem_inletVisits.1 he
      have hpart := BlockTree.isPart_input hc
      have hread : inlet ∈ inlets b.type b.mutation := by
        rw [congrArg Node.type hnode, congrArg Node.mutation hnode]
        exact mem_inlets_of_opened hinlet
      exact ih c hpart (hheld.part hpart)
        (harrives.inlet hb hread (slot_input_of_held hnode hc)) he
    · obtain ⟨rfl, c, hc, he⟩ := BlockTree.mem_nextVisits.1 he
      have hpart := BlockTree.isPart_next hc
      exact ih c hpart (hheld.part hpart) (harrives.next hb (slot_next_of_held hnode hc)) he

/-- A tree whose visits are among those of the program, and whose root has a value where one is
read. -/
structure VisitedTree (w : Workspace) (v : Vocabulary) (trace : List Entry) (place : Place)
    (t : BlockTree) : Prop where
  held : w.graph.Holds t
  visits : ∀ e ∈ t.visits v.preset.generator place, e ∈ trace
  hasValue : place = .value →
    ∃ bt, v.preset.registry.get? t.type = some bt ∧ bt.producesValue = true

variable {v : Vocabulary} {checkTables : Bool} {trace : List Entry}

/-- In a clean workspace all inlets of a visited block are read. -/
theorem VisitedTree.opened (h : VisitedTree w v trace place t)
    (hclean : findings w v.preset.registry checkTables = []) :
    v.preset.generator.opened place t.type t.mutation = inlets t.type t.mutation := by
  have hhandled := handled_root hclean h.held h.hasValue
  rw [Generator.opened, if_neg]
  intro hplaceholder
  rw [hplaceholder] at hhandled
  cases hhandled

/-- **Where generation can arrive, a clean workspace has a visited tree.** -/
theorem exists_visitedTree (hclean : findings w v.preset.registry checkTables = [])
    {forest : List BlockTree} (hforest : w.IsForest forest)
    {id : String} (harrives : Arrives w place id) :
    ∃ t, t.id = id ∧
      VisitedTree w v (forest.flatMap (BlockTree.visits v.preset.generator .chain)) place t := by
  induction harrives with
  | @root id hid hroot =>
    obtain ⟨b, hb⟩ := Option.isSome_iff_exists.1 (get?_isSome_iff.2 hid)
    have htop : id ∈ w.top := by
      refine (top_perm w).mem_iff.2 (List.mem_map.2 ⟨b, List.mem_filter.2 ⟨?_, ?_⟩, get?_id hb⟩)
      · exact List.mem_of_find?_eq_some hb
      · rw [parentOf_of_get? hb] at hroot
        rw [hroot, Option.isNone_none]
    rw [← hforest.roots] at htop
    obtain ⟨t, ht, rfl⟩ := List.mem_map.1 htop
    exact ⟨t, rfl, hforest.held t ht, fun e he => List.mem_flatMap.2 ⟨t, ht, he⟩,
      fun h => by cases h⟩
  | @inlet place id child b inlet _ hb hinlet hslot ih =>
    obtain ⟨t, rfl, hvisited⟩ := ih
    obtain ⟨b', hb', hnode⟩ := get?_of_holds hvisited.held
    obtain rfl := Option.some.inj (hb.symm.trans hb')
    have hinput := hslot
    rw [Block.slot?, congrArg Node.inputs hnode, BlockTree.node_input?] at hinput
    obtain ⟨c, hc, rfl⟩ := Option.map_eq_some_iff.1 hinput
    have hpart := BlockTree.isPart_input hc
    rw [congrArg Node.type hnode, congrArg Node.mutation hnode] at hinlet
    refine ⟨c, rfl, hvisited.held.part hpart, fun e he => hvisited.visits e ?_,
      producesValue_of_inlet hclean hvisited.held hinlet hc⟩
    rw [BlockTree.visits_eq, hvisited.opened hclean]
    refine List.mem_cons_of_mem _ (List.mem_append_left _ ?_)
    exact List.mem_flatMap.2 ⟨inlet, hinlet, BlockTree.mem_inletVisits.2 ⟨c, hc, he⟩⟩
  | @next id child b _ hb hslot ih =>
    obtain ⟨t, rfl, hvisited⟩ := ih
    obtain ⟨b', hb', hnode⟩ := get?_of_holds hvisited.held
    obtain rfl := Option.some.inj (hb.symm.trans hb')
    have hnext := hslot
    rw [Block.slot?, congrArg Node.next hnode, BlockTree.node] at hnext
    obtain ⟨c, hc, rfl⟩ := Option.map_eq_some_iff.1 hnext
    have hpart := BlockTree.isPart_next hc
    refine ⟨c, rfl, hvisited.held.part hpart, fun e he => hvisited.visits e ?_,
      fun h => by cases h⟩
    rw [BlockTree.visits_eq]
    refine List.mem_cons_of_mem _ (List.mem_append_right _ ?_)
    exact BlockTree.mem_nextVisits.2 ⟨rfl, c, hc, he⟩

end Visits

/-! ## What the check admits -/

namespace Lint

/-- Does no input of the workspace go by a field? -/
def NoFieldInputs (w : Workspace) (r : Registry) : Prop :=
  ∀ b ∈ w.blocks, ∀ t, r.get? b.type = some t → ∀ e ∈ b.inputs.entries, ∀ s,
    socketFor? t e.1 = some s → s.isField = false

/-- What the check admits among the inputs that are not declared: numbered copies of the sockets of
the type, and any other names on a block that has changed its shape. -/
inductive Admitted (t : BlockType) (b : Block) (name : String) : Prop
  | copy {s : Socket} (hnumbered : isNumbered name = true) (hs : s ∈ t.sockets)
      (hfield : s.isField = false) (hstem : stem s.name = stem name)
  | tail (hplain : isNumbered name = false) (hnone : t.socket? name = none)
      (hshape : b.mutation.isEmpty = false)

end Lint

/-- **In a clean workspace an input that is not read is one that the check admits.** -/
theorem admitted_of_unread {w : Workspace} {v : Vocabulary} {checkTables : Bool}
    (hclean : findings w v.preset.registry checkTables = [])
    (hfields : NoFieldInputs w v.preset.registry) {b : Block} (hb : b ∈ w.blocks)
    {e : String × String} (he : e ∈ b.inputs.entries)
    (hunread : e.1 ∉ (inlets b.type b.mutation).map Inlet.socket) :
    ∃ t, v.preset.registry.get? b.type = some t ∧ Admitted t b e.1 := by
  obtain ⟨t, ht, hfits⟩ := exists_type_of_clean hclean hb
  refine ⟨t, ht, ?_⟩
  cases hsocket : socketFor? t e.1 with
  | some s =>
    have hfield := hfields b hb t ht e he s hsocket
    obtain ⟨hnumbered, hs, hstem⟩ := isNumbered_of_unread ht hunread hsocket hfield
    exact .copy hnumbered hs hfield hstem
  | none =>
    have hnone := hfits e he
    rw [inputFindings, hsocket] at hnone
    dsimp only at hnone
    split at hnone
    · cases hnone
    · next hadmitted =>
      rw [Bool.or_eq_true, not_or, Bool.not_eq_true, Bool.not_eq_true] at hadmitted
      rw [socketFor?] at hsocket
      exact .tail hadmitted.1 (Option.or_eq_none_iff.1 hsocket).1 hadmitted.2

/-- A condition with two branches.  There is something in the input for a sixth one, and in an input
that no condition has; and a statement follows the value in the first condition. -/
def overlookedBlocks : Workspace :=
  ⟨[{ Block.fresh "choice" "controls_if" with
      mutation := ⟨[("elseif", "1")]⟩
      inputs := ⟨[("DO5", "copy"), ("EXTRA", "tail"), ("IF0", "same")]⟩ },
    { Block.fresh "copy" "text_print" with parent := some ⟨"choice", .input⟩ },
    { Block.fresh "tail" "text_print" with parent := some ⟨"choice", .input⟩ },
    { Block.fresh "same" "logic_boolean" with
      next := some "after"
      parent := some ⟨"choice", .input⟩ },
    { Block.fresh "after" "text_print" with parent := some ⟨"same", .next⟩ }]⟩

theorem overlookedBlocks_reachable : overlookedBlocks.Reachable :=
  ((((((((((Workspace.Reachable.empty.step (.add "choice" "controls_if" rfl)).step
    (.add "copy" "text_print" rfl)).step (.add "tail" "text_print" rfl)).step
    (.add "same" "logic_boolean" rfl)).step (.add "after" "text_print" rfl)).step
    (.setMutation "choice" "elseif" "1" rfl)).step (.connectInput "choice" "DO5" "copy" rfl)).step
    (.connectInput "choice" "EXTRA" "tail" rfl)).step
    (.connectInput "choice" "IF0" "same" rfl)).step (.connectNext "same" "after" rfl))

theorem overlookedBlocks_top : overlookedBlocks.top = ["choice"] := by
  simp [Workspace.top, overlookedBlocks, Block.fresh]

theorem overlookedBlocks_noFieldInputs :
    NoFieldInputs overlookedBlocks Vocabulary.standard.preset.registry := by
  have hall : ∀ b ∈ overlookedBlocks.blocks, ∀ e ∈ b.inputs.entries,
      ((Vocabulary.standard.preset.registry.get? b.type).bind fun t =>
        socketFor? t e.1).all fun s => !s.isField := by
    decide +kernel
  intro b hb t ht e he s hs
  have hfield := hall b hb e he
  rw [ht, Option.bind_some, hs, Option.all_some, Bool.not_eq_true'] at hfield
  exact hfield

end VisualBlocks

import VisualBlocks.Graph

/-!
# Trees of blocks

A `BlockTree` is a block with the trees in its inputs and the tree of the block that follows it.
A graph holds a tree (`Graph.Holds`) when each block of the tree is a node of the graph, with the
links that the tree shows.

What holds of a tree is said of `BlockTree.blocks`, all blocks of the tree with their identifiers;
**a part of a tree has fewer blocks**, which is what recursion over trees goes by.
-/

set_option autoImplicit false

namespace VisualBlocks

/-- A block with what is in its inputs and what follows it. -/
inductive BlockTree where
  | mk (id type : String) (fields mutation : Table String) (inputs : List (String × BlockTree))
      (next : Option BlockTree)

namespace BlockTree

/-- The identifier of the block. -/
def id : BlockTree → String
  | mk id _ _ _ _ _ => id

/-- The type of the block. -/
def type : BlockTree → String
  | mk _ type _ _ _ _ => type

/-- The fields of the block. -/
def fields : BlockTree → Table String
  | mk _ _ fields _ _ _ => fields

/-- The texts that describe the shape of the block. -/
def mutation : BlockTree → Table String
  | mk _ _ _ mutation _ _ => mutation

/-- What is in the inputs, under their names. -/
def inputs : BlockTree → List (String × BlockTree)
  | mk _ _ _ _ inputs _ => inputs

/-- What follows the block. -/
def next : BlockTree → Option BlockTree
  | mk _ _ _ _ _ next => next

/-- What is in an input. -/
def input? (t : BlockTree) (socket : String) : Option BlockTree := t.inputs.lookup socket

/-- The block as a node of a graph. -/
def node (t : BlockTree) : Node :=
  ⟨t.type, t.fields, ⟨t.inputs.map fun e => (e.1, e.2.id)⟩, t.mutation, t.next.map id⟩

mutual

/-- The blocks of a tree under their identifiers. -/
def blocks : BlockTree → List (String × Node)
  | mk id type fields mutation inputs next =>
    (id, (mk id type fields mutation inputs next).node) :: (inputBlocks inputs ++ nextBlocks next)

/-- The blocks in some inputs. -/
def inputBlocks : List (String × BlockTree) → List (String × Node)
  | [] => []
  | (_, t) :: rest => t.blocks ++ inputBlocks rest

/-- The blocks of what follows a block. -/
def nextBlocks : Option BlockTree → List (String × Node)
  | none => []
  | some t => t.blocks

end

/-- The identifiers of the blocks of a tree. -/
def ids (t : BlockTree) : List String := t.blocks.map (·.1)

theorem blocks_eq (t : BlockTree) :
    t.blocks = (t.id, t.node) :: (inputBlocks t.inputs ++ nextBlocks t.next) := by
  obtain ⟨id, type, fields, mutation, inputs, next⟩ := t
  rw [blocks]
  rfl

theorem self_mem_blocks (t : BlockTree) : (t.id, t.node) ∈ t.blocks := by
  rw [blocks_eq]
  exact List.mem_cons_self

theorem length_blocks_pos (t : BlockTree) : 0 < t.blocks.length :=
  List.length_pos_of_mem t.self_mem_blocks

theorem id_mem_ids (t : BlockTree) : t.id ∈ t.ids := List.mem_map.2 ⟨_, t.self_mem_blocks, rfl⟩

theorem input?_mem {t c : BlockTree} {socket : String} (h : t.input? socket = some c) :
    (socket, c) ∈ t.inputs := Table.mem_of_lookup h

/-- The inputs of the node are the inputs of the tree. -/
theorem node_input? (t : BlockTree) (socket : String) :
    t.node.inputs.get? socket = (t.input? socket).map id := by
  rw [Table.get?, node, input?]
  induction t.inputs with
  | nil => rfl
  | cons e es ih =>
    obtain ⟨name, c⟩ := e
    rw [List.map_cons, List.lookup_cons, List.lookup_cons, ih]
    cases socket == name <;> rfl

/-! ## Parts -/

/-- The blocks in one input are among the blocks in all of them. -/
theorem exists_inputBlocks {inputs : List (String × BlockTree)} {e : String × BlockTree}
    (h : e ∈ inputs) :
    ∃ before after, inputBlocks inputs = before ++ (e.2.blocks ++ after) := by
  induction inputs with
  | nil => cases h
  | cons e' es ih =>
    rcases List.mem_cons.1 h with rfl | h
    · exact ⟨[], inputBlocks es, by rw [inputBlocks]; rfl⟩
    · obtain ⟨before, after, hsplit⟩ := ih h
      exact ⟨e'.2.blocks ++ before, after, by rw [inputBlocks, hsplit, List.append_assoc]⟩

/-- **What is in an input has its blocks among those of the tree, and fewer.** -/
theorem exists_blocks_input {t : BlockTree} {e : String × BlockTree} (h : e ∈ t.inputs) :
    ∃ before after, t.blocks = (t.id, t.node) :: (before ++ (e.2.blocks ++ after)) := by
  obtain ⟨before, after, hsplit⟩ := exists_inputBlocks h
  refine ⟨before, after ++ nextBlocks t.next, ?_⟩
  rw [blocks_eq, hsplit, List.append_assoc, List.append_assoc]

/-- **What follows has its blocks among those of the tree, and fewer.** -/
theorem exists_blocks_next {t n : BlockTree} (h : t.next = some n) :
    ∃ before after, t.blocks = (t.id, t.node) :: (before ++ (n.blocks ++ after)) := by
  refine ⟨inputBlocks t.inputs, [], ?_⟩
  rw [blocks_eq, h, nextBlocks, List.append_nil]

/-- A part of a tree: in one of its inputs, or what follows it. -/
def IsPart (c t : BlockTree) : Prop := (∃ socket, (socket, c) ∈ t.inputs) ∨ t.next = some c

theorem isPart_input {t c : BlockTree} {socket : String} (h : t.input? socket = some c) :
    c.IsPart t := .inl ⟨socket, input?_mem h⟩

theorem isPart_next {t n : BlockTree} (h : t.next = some n) : n.IsPart t := .inr h

namespace IsPart

variable {c t : BlockTree}

theorem exists_blocks (h : c.IsPart t) :
    ∃ before after, t.blocks = (t.id, t.node) :: (before ++ (c.blocks ++ after)) := by
  rcases h with ⟨socket, hmem⟩ | hnext
  · exact exists_blocks_input hmem
  · exact exists_blocks_next hnext

theorem subset (h : c.IsPart t) : ∀ b ∈ c.blocks, b ∈ t.blocks := by
  obtain ⟨before, after, hsplit⟩ := h.exists_blocks
  intro b hb
  rw [hsplit]
  exact List.mem_cons_of_mem _ (List.mem_append_right _ (List.mem_append_left _ hb))

theorem length_lt (h : c.IsPart t) : c.blocks.length < t.blocks.length := by
  obtain ⟨before, after, hsplit⟩ := h.exists_blocks
  rw [hsplit, List.length_cons, List.length_append, List.length_append]
  omega

theorem ids_subset (h : c.IsPart t) : ∀ id ∈ c.ids, id ∈ t.ids := by
  intro id hid
  obtain ⟨b, hb, rfl⟩ := List.mem_map.1 hid
  exact List.mem_map.2 ⟨b, h.subset b hb, rfl⟩

theorem nodup (h : c.IsPart t) (ht : t.ids.Nodup) : c.ids.Nodup := by
  obtain ⟨before, after, hsplit⟩ := h.exists_blocks
  rw [ids, hsplit, List.map_cons, List.map_append, List.map_append] at ht
  exact (List.nodup_append.1 (List.nodup_append.1 (List.nodup_cons.1 ht).2).2.1).1

/-- In a tree without repetition a block is in none of its parts. -/
theorem id_not_mem (h : c.IsPart t) (ht : t.ids.Nodup) : t.id ∉ c.ids := by
  obtain ⟨before, after, hsplit⟩ := h.exists_blocks
  rw [ids, hsplit, List.map_cons, List.map_append, List.map_append] at ht
  exact fun hmem => (List.nodup_cons.1 ht).1
    (List.mem_append_right _ (List.mem_append_left _ hmem))

end IsPart

/-- The identifiers of the blocks in an input. -/
def inputIds (t : BlockTree) (socket : String) : List String :=
  match t.input? socket with
  | none => []
  | some c => c.ids

/-- The identifiers of the blocks of what follows. -/
def nextIds (t : BlockTree) : List String :=
  match t.next with
  | none => []
  | some n => n.ids

theorem inputIds_subset (t : BlockTree) (socket : String) : ∀ id ∈ t.inputIds socket, id ∈ t.ids := by
  intro id hid
  rw [inputIds] at hid
  split at hid
  · cases hid
  · next h => exact (isPart_input h).ids_subset id hid

theorem mem_inputBlocks {inputs : List (String × BlockTree)} {e : String × BlockTree}
    {b : String × Node} (he : e ∈ inputs) (hb : b ∈ e.2.blocks) : b ∈ inputBlocks inputs := by
  obtain ⟨before, after, hsplit⟩ := exists_inputBlocks he
  rw [hsplit]
  exact List.mem_append_right _ (List.mem_append_left _ hb)

/-- Different inputs hold different blocks. -/
theorem disjoint_of_lookup {inputs : List (String × BlockTree)}
    (hnodup : ((inputBlocks inputs).map (·.1)).Nodup) {s s' : String} (hne : s ≠ s')
    {c c' : BlockTree} (hc : inputs.lookup s = some c) (hc' : inputs.lookup s' = some c') :
    ∀ id ∈ c.ids, id ∉ c'.ids := by
  induction inputs with
  | nil => cases hc
  | cons e es ih =>
    obtain ⟨name, d⟩ := e
    rw [inputBlocks, List.map_append] at hnodup
    obtain ⟨-, hes, hdisjoint⟩ := List.nodup_append.1 hnodup
    have hrest {s : String} {c : BlockTree} (h : es.lookup s = some c) :
        ∀ id ∈ c.ids, id ∈ (inputBlocks es).map (·.1) := by
      intro id hid
      obtain ⟨b, hb, rfl⟩ := List.mem_map.1 hid
      exact List.mem_map.2 ⟨b, mem_inputBlocks (Table.mem_of_lookup h) hb, rfl⟩
    rw [List.lookup_cons] at hc hc'
    by_cases hs : s = name
    · subst hs
      rw [beq_self_eq_true] at hc
      have hs' : (s' == s) = false := beq_false_of_ne hne.symm
      rw [hs'] at hc'
      obtain rfl := Option.some.inj hc
      exact fun id hid hid' => hdisjoint id hid id (hrest hc' id hid') rfl
    · rw [beq_false_of_ne hs] at hc
      by_cases hs' : s' = name
      · subst hs'
        rw [beq_self_eq_true] at hc'
        obtain rfl := Option.some.inj hc'
        exact fun id hid hid' => hdisjoint id hid' id (hrest hc id hid) rfl
      · rw [beq_false_of_ne hs'] at hc'
        exact ih hes hc hc'

theorem nodup_parts {t : BlockTree} (h : t.ids.Nodup) :
    ((inputBlocks t.inputs).map (·.1)).Nodup ∧
      ∀ id ∈ (inputBlocks t.inputs).map (·.1), id ∉ t.nextIds := by
  rw [ids, blocks_eq, List.map_cons, List.map_append] at h
  obtain ⟨hinputs, -, hdisjoint⟩ := List.nodup_append.1 (List.nodup_cons.1 h).2
  refine ⟨hinputs, fun id hid hnext => ?_⟩
  rw [nextIds] at hnext
  split at hnext
  · cases hnext
  · next n hn =>
    rw [hn, nextBlocks] at hdisjoint
    exact hdisjoint id hid id hnext rfl

/-- **In a tree without repetition different inputs hold different blocks.** -/
theorem disjoint_inputIds {t : BlockTree} (h : t.ids.Nodup) {s s' : String} (hne : s ≠ s') :
    ∀ id ∈ t.inputIds s, id ∉ t.inputIds s' := by
  intro id hid hid'
  rw [inputIds] at hid hid'
  split at hid
  · cases hid
  · next c hc =>
    split at hid'
    · cases hid'
    · next c' hc' => exact disjoint_of_lookup (nodup_parts h).1 hne hc hc' id hid hid'

/-- In a tree without repetition what follows is in no input. -/
theorem disjoint_nextIds {t : BlockTree} (h : t.ids.Nodup) (socket : String) :
    ∀ id ∈ t.inputIds socket, id ∉ t.nextIds := by
  intro id hid
  refine (nodup_parts h).2 id ?_
  rw [inputIds] at hid
  split at hid
  · cases hid
  · next c hc =>
    obtain ⟨b, hb, rfl⟩ := List.mem_map.1 hid
    exact List.mem_map.2 ⟨b, mem_inputBlocks (input?_mem hc) hb, rfl⟩

end BlockTree

/-! ## Trees in graphs -/

/-- Each block of the tree is a node of the graph. -/
def Graph.Holds (g : Graph) (t : BlockTree) : Prop := ∀ b ∈ t.blocks, g.node? b.1 = some b.2

namespace Graph.Holds

variable {g : Graph} {t c : BlockTree}

theorem part (h : g.Holds t) (hc : c.IsPart t) : g.Holds c := fun b hb => h b (hc.subset b hb)

theorem node? (h : g.Holds t) : g.node? t.id = some t.node := h _ t.self_mem_blocks

/-- A tree without repetition has no more blocks than the graph has nodes. -/
theorem length_le (h : g.Holds t) (hnodup : t.ids.Nodup) : t.blocks.length ≤ g.nodes.length := by
  have hsub : t.ids ⊆ g.nodes.map (·.1) := by
    intro id hid
    obtain ⟨b, hb, rfl⟩ := List.mem_map.1 hid
    exact List.mem_map_of_mem (f := Prod.fst) (Table.mem_of_lookup (h b hb))
  have hle := hnodup.length_le_of_subset hsub
  rwa [BlockTree.ids, List.length_map, List.length_map] at hle

end Graph.Holds
end VisualBlocks

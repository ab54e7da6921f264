import VisualBlocks.Proofs.Lint.Sockets
import VisualBlocks.Proofs.Workspace.Forest

/-!
# Clean workspaces have no placeholders

Where no rule can turn a block into text, a comment stands for the block.  The check of a workspace
knows nothing of the rules, only of the declared types; still **a workspace without warnings gets no
such comment** (`clean_handled`): the program is generated, and every block that generation comes to,
in a chain or for its value, is turned into text by its rule.

The invariant of the way through a tree is that a block whose value is read is declared to have one.
The check keeps it wherever a rule reads a value, because what the rule calls an inlet for a value is
a value socket to the check (`socketFor?_inlet`).
-/

set_option autoImplicit false

namespace VisualBlocks

open Generation Lint Workspace

/-! ## What the check says of a block -/

variable {w : Workspace} {r : Registry} {checkTables : Bool} {b : Block} {name child : String}

theorem Lint.exists_type_of_clean (h : findings w r checkTables = []) (hb : b ∈ w.blocks) :
    ∃ t, r.get? b.type = some t ∧
      ∀ e ∈ b.inputs.entries, inputFindings w r t b e.1 e.2 = [] := by
  have hnone : blockFindings w r checkTables b = [] :=
    List.map_eq_nil_iff.1 (List.flatMap_eq_nil_iff.1 h b hb)
  rw [blockFindings] at hnone
  cases ht : r.get? b.type with
  | none =>
    rw [ht] at hnone
    cases hnone
  | some t =>
    rw [ht] at hnone
    exact ⟨t, rfl, List.flatMap_eq_nil_iff.1
      (List.append_eq_nil_iff.1 (List.append_eq_nil_iff.1 hnone).1).2⟩

/-- A block in a value socket has a value. -/
theorem Lint.producesValue_of_clean {t held : BlockType} {c : Block} {s : Socket}
    (h : inputFindings w r t b name child = []) (hs : socketFor? t name = some s)
    (hvalue : s.isValue = true) (hc : w.get? child = some c) (hheld : r.get? c.type = some held) :
    held.producesValue = true := by
  rw [inputFindings, hs, hc, Option.bind_some, hheld] at h
  dsimp only at h
  split at h
  · next heq => rwa [hvalue, beq_iff_eq, eq_comm] at heq
  · cases h

/-! ## Trees -/

/-- The block is turned into text by its rule, as a statement or as an expression. -/
inductive Handled (g : Generator) (w : Workspace) : Entry → Prop
  | statement {id : String} {b : Block} {emit : Site → Emission String} (hb : w.get? id = some b)
      (hrule : g.rules.get? b.type = some (.statement emit)) : Handled g w ⟨id, .statement⟩
  | expression {id : String} {b : Block} {emit : Site → Emission (String × Order)}
      (hb : w.get? id = some b) (hrule : g.rules.get? b.type = some (.value emit)) :
      Handled g w ⟨id, .expression⟩

theorem Generation.Generator.value_of_handling {g : Generator} {type : String}
    (h : g.handling type = .expression) : ∃ emit, g.rules.get? type = some (.value emit) := by
  rw [Generator.handling] at h
  split at h
  · cases h
  · next emit hrule => exact ⟨emit, hrule⟩
  · cases h

theorem Generation.Generator.statement_of_handling {g : Generator} {type : String}
    (h : g.handling type = .statement) : ∃ emit, g.rules.get? type = some (.statement emit) := by
  rw [Generator.handling] at h
  split at h
  · next emit hrule => exact ⟨emit, hrule⟩
  · cases h
  · cases h

variable {v : Vocabulary} {t : BlockTree} {place : Place}

/-- The root of a tree is handled, if it has a value where one is read. -/
theorem handled_root (hclean : findings w v.preset.registry checkTables = [])
    (hheld : w.graph.Holds t)
    (hplace : place = .value →
      ∃ bt, v.preset.registry.get? t.type = some bt ∧ bt.producesValue = true) :
    Handled v.preset.generator w ⟨t.id, v.preset.generator.role place t.type⟩ := by
  obtain ⟨b, hb, hnode⟩ := get?_of_holds hheld
  have htype : b.type = t.type := congrArg Node.type hnode
  obtain ⟨bt, hbt, -⟩ := exists_type_of_clean hclean (List.mem_of_find?_eq_some hb)
  have hhandling : v.preset.generator.handling b.type =
      if bt.producesValue then Handling.expression else Handling.statement :=
    handling_of_declared v.preset.registry hbt
  rw [← htype] at hplace ⊢
  cases hvalue : bt.producesValue with
  | true =>
    rw [hvalue, if_pos rfl] at hhandling
    obtain ⟨emit, hrule⟩ := Generator.value_of_handling hhandling
    have hrole : v.preset.generator.role place b.type = .expression := by
      cases place with
      | chain => exact hhandling
      | value => rw [Generator.role, hrule]
    rw [hrole]
    exact .expression hb hrule
  | false =>
    rw [hvalue, if_neg Bool.false_ne_true] at hhandling
    cases place with
    | chain =>
      obtain ⟨emit, hrule⟩ := Generator.statement_of_handling hhandling
      rw [Generator.role, hhandling]
      exact .statement hb hrule
    | value =>
      obtain ⟨bt', hbt', hvalue'⟩ := hplace rfl
      rw [Option.some.inj (hbt.symm.trans hbt'), hvalue'] at hvalue
      cases hvalue

/-- What is read of a block for its value has one. -/
theorem producesValue_of_inlet (hclean : findings w v.preset.registry checkTables = [])
    (hheld : w.graph.Holds t) {inlet : Inlet} (hinlet : inlet ∈ inlets t.type t.mutation)
    {c : BlockTree} (hc : t.input? inlet.socket = some c) (hplace : inlet.place = .value) :
    ∃ bt, v.preset.registry.get? c.type = some bt ∧ bt.producesValue = true := by
  obtain ⟨b, hb, hnode⟩ := get?_of_holds hheld
  obtain ⟨child, hchild, hchildNode⟩ := get?_of_holds (hheld.part (BlockTree.isPart_input hc))
  have hmem : (inlet.socket, c.id) ∈ b.inputs.entries := by
    rw [congrArg Node.inputs hnode]
    exact List.mem_map.2 ⟨_, BlockTree.input?_mem hc, rfl⟩
  obtain ⟨bt, hbt, hfits⟩ := exists_type_of_clean hclean (List.mem_of_find?_eq_some hb)
  obtain ⟨held, hheldType, -⟩ := exists_type_of_clean hclean (List.mem_of_find?_eq_some hchild)
  have htype : b.type = t.type := congrArg Node.type hnode
  have hchildType : child.type = c.type := congrArg Node.type hchildNode
  cases inlet with
  | body socket => cases hplace
  | value socket =>
    rw [htype] at hbt
    obtain ⟨s, hs, hvalue⟩ := socketFor?_inlet hbt hinlet
    refine ⟨held, hchildType ▸ hheldType, ?_⟩
    exact producesValue_of_clean (hfits _ hmem) hs hvalue hchild hheldType

/-- **Every visit to a tree of a clean workspace is to a block with a rule.** -/
theorem handled_of_mem_visits (hclean : findings w v.preset.registry checkTables = [])
    (hheld : w.graph.Holds t)
    (hplace : place = .value →
      ∃ bt, v.preset.registry.get? t.type = some bt ∧ bt.producesValue = true)
    {e : Entry} (he : e ∈ t.visits v.preset.generator place) : Handled v.preset.generator w e := by
  induction t using BlockTree.induction_parts generalizing place with
  | step t ih =>
    rw [BlockTree.visits_eq, List.mem_cons, List.mem_append, List.mem_flatMap] at he
    rcases he with rfl | ⟨inlet, hinlet, he⟩ | he
    · exact handled_root hclean hheld hplace
    · obtain ⟨c, hc, he⟩ := BlockTree.mem_inletVisits.1 he
      have hpart := BlockTree.isPart_input hc
      have hread : inlet ∈ inlets t.type t.mutation := by
        rw [Generator.opened] at hinlet
        split at hinlet
        · cases hinlet
        · exact hinlet
      exact ih c hpart (hheld.part hpart) (producesValue_of_inlet hclean hheld hread hc) he
    · obtain ⟨-, c, hc, he⟩ := BlockTree.mem_nextVisits.1 he
      have hpart := BlockTree.isPart_next hc
      exact ih c hpart (hheld.part hpart) (fun h => by cases h) he

/-! ## Programs -/

/-- The rules of a vocabulary read the inlets of their blocks. -/
theorem Vocabulary.readsInlets (v : Vocabulary) (registry : Registry) :
    (v.generator registry).ReadsInlets := fun h => rule_reads v registry h

/-- The trace of the program of a linked workspace is that of its trees. -/
theorem Workspace.Linked.tracedGenerate (h : Linked w) (registry : Registry)
    {forest : List BlockTree} (hforest : w.IsForest forest) :
    (v.generator registry).tracedGenerate w.graph w.top = some ((v.generator registry).code w,
      forest.flatMap (BlockTree.visits (v.generator registry) .chain)) := by
  have hplanted : ∀ t ∈ forest, Planted w.graph t := fun t ht =>
    ⟨hforest.held t ht, h.nodup_tree (hforest.held t ht)⟩
  obtain ⟨code, hgenerate, htraced⟩ :=
    tracedGenerate_forest (v.readsInlets registry) hplanted (h.nodup_forest hforest)
  rw [hforest.roots] at hgenerate htraced
  have htop : w.graph.top = w.top := rfl
  rw [htraced, Generator.code, Generator.graphCode, htop, hgenerate, Option.getD_some]

/-- **A clean workspace has no placeholders.**  For each vocabulary with its built-in types and each
workspace that can be reached, if the check has no warning then the program is generated, and every
block that generation comes to is turned into text by its rule: as a statement or as an expression in
a chain, and as an expression where its value is read. -/
theorem clean_handled (v : Vocabulary) (checkTables : Bool) (w : Workspace)
    (hreachable : w.Reachable) (hclean : findings w v.preset.registry checkTables = []) :
    ∃ trace, v.preset.generator.tracedGenerate w.graph w.top =
        some (v.preset.generator.code w, trace) ∧
      ∀ e ∈ trace, Handled v.preset.generator w e := by
  obtain ⟨forest, hforest⟩ := hreachable.linked.exists_forest
  refine ⟨_, hreachable.linked.tracedGenerate v.preset.registry hforest, fun e he => ?_⟩
  obtain ⟨t, ht, he⟩ := List.mem_flatMap.1 he
  exact handled_of_mem_visits hclean (hforest.held t ht) (fun h => by cases h) he

/-- A condition with a second branch, in which a text of three parts is shown. -/
def grownBlocks : Workspace :=
  ⟨[{ Block.fresh "choice" "controls_if" with
      mutation := ⟨[("elseif", "1")]⟩
      inputs := ⟨[("DO1", "show"), ("IF1", "same")]⟩ },
    { Block.fresh "same" "logic_boolean" with parent := some ⟨"choice", .input⟩ },
    { Block.fresh "show" "text_print" with
      inputs := ⟨[("TEXT", "join")]⟩
      parent := some ⟨"choice", .input⟩ },
    { Block.fresh "join" "text_join" with
      mutation := ⟨[("items", "3")]⟩
      inputs := ⟨[("ADD2", "word")]⟩
      parent := some ⟨"show", .input⟩ },
    { Block.fresh "word" "text" with parent := some ⟨"join", .input⟩ }]⟩

theorem grownBlocks_reachable : grownBlocks.Reachable :=
  (((((((((((Workspace.Reachable.empty.step (.add "choice" "controls_if" rfl)).step
    (.add "same" "logic_boolean" rfl)).step (.add "show" "text_print" rfl)).step
    (.add "join" "text_join" rfl)).step (.add "word" "text" rfl)).step
    (.setMutation "choice" "elseif" "1" rfl)).step (.setMutation "join" "items" "3" rfl)).step
    (.connectInput "choice" "IF1" "same" rfl)).step (.connectInput "choice" "DO1" "show" rfl)).step
    (.connectInput "show" "TEXT" "join" rfl)).step (.connectInput "join" "ADD2" "word" rfl))

theorem grownBlocks_handled :
    grownBlocks.Reachable ∧ findings grownBlocks Vocabulary.canvas.preset.registry true = [] ∧
      (Vocabulary.canvas.preset.generator.tracedGenerate grownBlocks.graph grownBlocks.top).map
          Prod.snd =
        some [⟨"choice", .statement⟩, ⟨"same", .expression⟩, ⟨"show", .statement⟩,
          ⟨"join", .expression⟩, ⟨"word", .expression⟩] ∧
      Handled Vocabulary.canvas.preset.generator grownBlocks ⟨"word", .expression⟩ := by
  have hclean : findings grownBlocks Vocabulary.canvas.preset.registry true = [] := by
    decide +kernel
  have htop : grownBlocks.top = ["choice"] := by
    simp [top, grownBlocks, Block.fresh]
  have htrace : (Vocabulary.canvas.preset.generator.tracedGenerate grownBlocks.graph
      ["choice"]).map Prod.snd =
        some [⟨"choice", .statement⟩, ⟨"same", .expression⟩, ⟨"show", .statement⟩,
          ⟨"join", .expression⟩, ⟨"word", .expression⟩] := by
    decide +kernel
  obtain ⟨trace, htraced, hhandled⟩ :=
    clean_handled .canvas true grownBlocks grownBlocks_reachable hclean
  rw [← htop] at htrace
  refine ⟨grownBlocks_reachable, hclean, htrace, hhandled _ ?_⟩
  rw [htraced, Option.map_some, Option.some_inj] at htrace
  have heq : trace = _ := htrace
  rw [heq]
  decide

end VisualBlocks

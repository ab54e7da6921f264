import VisualBlocks.Proofs.Generation.Recording
import VisualBlocks.Proofs.Workspace.Forest
import VisualBlocks.Proofs.Workspace.ReadingOrder

/-!
# The order of the statements

The statements of a generated program come from the blocks of the workspace in one order, which the
trees of the workspace tell: the top-level blocks in reading order, below each the blocks of its
chain, and behind each of these the chains in the inputs that its rule reads as statements
(`BlockTree.entries`).  **No block in the place of a statement is lost, repeated or moved**
(`statement_order`).

The set of blocks that a pass has been to is there for graphs with circles.  The blocks of a
workspace form trees, and so it never keeps a block out of the program: no journal of a workspace has
the entry of a chain that comes back to a block.
-/

set_option autoImplicit false

namespace VisualBlocks

open Generation Workspace

/-- The rules of a vocabulary ask for the bodies of their blocks. -/
theorem Vocabulary.asksBodies (v : Vocabulary) (registry : Registry) :
    (v.generator registry).AsksBodies := fun h => rule_bodies v registry h

/-- The trees of a linked workspace stand in its graph. -/
theorem Workspace.Linked.planted {w : Workspace} (h : Linked w) {forest : List BlockTree}
    (hforest : w.IsForest forest) : ∀ t ∈ forest, Planted w.graph t :=
  fun t ht => ⟨hforest.held t ht, h.nodup_tree (hforest.held t ht)⟩

/-- The journal of a linked workspace is that of its trees. -/
theorem Workspace.Linked.notedGenerate_eq {w : Workspace} (h : Linked w) (v : Vocabulary)
    (registry : Registry) {forest : List BlockTree} (hforest : w.IsForest forest) :
    (v.generator registry).notedGenerate w.graph w.top = some ((v.generator registry).code w,
      forest.flatMap fun t => t.entries (v.generator registry)) := by
  obtain ⟨code, hcode, hnoted⟩ :=
    notedGenerate_forest (v.asksBodies registry) (h.planted hforest) (h.nodup_forest hforest)
  have htop : w.graph.top = w.top := rfl
  rw [hforest.roots] at hcode hnoted
  rw [hnoted, Generator.code, Generator.graphCode, htop, hcode, Option.getD_some]

/-- **A linked workspace has a program.** -/
theorem Workspace.Linked.generate_eq_code {w : Workspace} (h : Linked w) (v : Vocabulary)
    (registry : Registry) :
    (v.generator registry).generate w.graph w.top = some ((v.generator registry).code w) := by
  obtain ⟨forest, hforest⟩ := h.exists_forest
  rw [← Generator.map_fst_notedGenerate, h.notedGenerate_eq v registry hforest, Option.map_some]

/-- In trees without repetition no block comes up twice. -/
theorem nodup_forestEntries {g : Generator} {forest : List BlockTree}
    (h : (forest.flatMap BlockTree.ids).Nodup) :
    ((forest.flatMap fun t => t.entries g).map Entry.id).Nodup := by
  rw [List.nodup_flatMap] at h
  rw [List.map_flatMap, List.nodup_flatMap]
  refine ⟨fun t ht => BlockTree.nodup_entries (h.1 t ht), h.2.imp fun hapart id hid hid' => ?_⟩
  obtain ⟨e, he, rfl⟩ := List.mem_map.1 hid
  obtain ⟨e', he', heq⟩ := List.mem_map.1 hid'
  exact hapart (BlockTree.id_mem_of_mem_entries he) (heq ▸ BlockTree.id_mem_of_mem_entries he')

/-- **The statements of a program are the blocks of the workspace, each once and in order.**  For
every vocabulary, with any further types, and for every workspace that can be reached: the roots are
the blocks without a parent, from top to bottom, from left to right and by creation.  The walk over
them comes to an end with the program, and its journal is that of their trees, one after the other.
No block comes up twice in it, and it never comes to a block for a second time. -/
theorem statement_order (v : Vocabulary) (registry : Registry) (w : Workspace)
    (hreachable : w.Reachable) :
    (w.top = w.roots.map (·.id) ∧ w.roots.Perm (w.blocks.filter fun b => b.parent.isNone) ∧
      (∃ edits, (Ledger.ofEdits edits).workspace = w) ∧
      ∀ edits, (Ledger.ofEdits edits).workspace = w →
        w.roots.Pairwise (Ledger.ofEdits edits).Precedes) ∧
    (∃ forest, w.IsForest forest) ∧ ∀ forest, w.IsForest forest →
      (v.generator registry).generate w.graph w.top = some ((v.generator registry).code w) ∧
        (v.generator registry).notedGenerate w.graph w.top =
          some ((v.generator registry).code w,
            forest.flatMap fun t => t.entries (v.generator registry)) ∧
        ((forest.flatMap fun t => t.entries (v.generator registry)).map Entry.id).Nodup ∧
        ∀ e ∈ forest.flatMap fun t => t.entries (v.generator registry), e.handling ≠ .cycle := by
  have hlinked := hreachable.linked
  refine ⟨⟨rfl, w.roots_perm, hreachable.exists_edits, ?_⟩, hlinked.exists_forest, ?_⟩
  · rintro edits rfl
    exact (Ledger.kept_ofEdits edits).pairwise_roots
  · intro forest hforest
    refine ⟨hlinked.generate_eq_code v registry, hlinked.notedGenerate_eq v registry hforest,
      nodup_forestEntries (hlinked.nodup_forest hforest), fun e he => ?_⟩
    obtain ⟨t, -, he⟩ := List.mem_flatMap.1 he
    exact BlockTree.handling_ne_cycle he

/-- A number, and above it a condition with a loop in its branch and a block for all other cases. -/
def branchedLoop : Workspace :=
  ⟨[{ Block.fresh "number" "math_number" with y := 9 },
    { Block.fresh "choice" "controls_if" with
      inputs := ⟨[("DO0", "loop"), ("ELSE", "other")]⟩
      next := some "last" },
    { Block.fresh "last" "text_print" with parent := some ⟨"choice", .next⟩ },
    { Block.fresh "other" "text_print" with parent := some ⟨"choice", .input⟩ },
    { Block.fresh "loop" "controls_repeat" with
      inputs := ⟨[("DO", "inner")]⟩
      parent := some ⟨"choice", .input⟩ },
    { Block.fresh "inner" "text_print" with parent := some ⟨"loop", .input⟩ }]⟩

theorem branchedLoop_reachable : branchedLoop.Reachable :=
  (((((((((((Workspace.Reachable.empty.step (.add "number" "math_number" rfl)).step
    (.add "choice" "controls_if" rfl)).step (.add "last" "text_print" rfl)).step
    (.add "other" "text_print" rfl)).step (.add "loop" "controls_repeat" rfl)).step
    (.add "inner" "text_print" rfl)).step (.setPosition "number" 0 9 rfl)).step
    (.connectNext "choice" "last" rfl)).step (.connectInput "choice" "ELSE" "other" rfl)).step
    (.connectInput "choice" "DO0" "loop" rfl)).step (.connectInput "loop" "DO" "inner" rfl))

theorem branchedLoop_order :
    ((Vocabulary.canvas.generator ⟨[]⟩).notedGenerate branchedLoop.graph branchedLoop.top).map
        Prod.snd =
      some [⟨"choice", .statement⟩, ⟨"loop", .statement⟩, ⟨"inner", .statement⟩,
        ⟨"other", .statement⟩, ⟨"last", .statement⟩, ⟨"number", .expression⟩] ∧
    (∃ forest, branchedLoop.IsForest forest) ∧ ∀ forest, branchedLoop.IsForest forest →
      (forest.flatMap fun t => t.entries (Vocabulary.canvas.generator ⟨[]⟩)) =
        [⟨"choice", .statement⟩, ⟨"loop", .statement⟩, ⟨"inner", .statement⟩,
          ⟨"other", .statement⟩, ⟨"last", .statement⟩, ⟨"number", .expression⟩] := by
  have horder := statement_order .canvas ⟨[]⟩ branchedLoop branchedLoop_reachable
  have htop : branchedLoop.top = ["choice", "number"] := by
    simp [top, branchedLoop, Block.fresh, List.mergeSort, Block.readsBefore]
  have hjournal : ((Vocabulary.canvas.generator ⟨[]⟩).notedGenerate branchedLoop.graph
      ["choice", "number"]).map Prod.snd =
        some [⟨"choice", .statement⟩, ⟨"loop", .statement⟩, ⟨"inner", .statement⟩,
          ⟨"other", .statement⟩, ⟨"last", .statement⟩, ⟨"number", .expression⟩] := by
    decide +kernel
  rw [htop]
  refine ⟨hjournal, horder.2.1, fun forest hforest => ?_⟩
  rw [← htop, (horder.2.2 forest hforest).2.1, Option.map_some] at hjournal
  exact Option.some.inj hjournal

end VisualBlocks

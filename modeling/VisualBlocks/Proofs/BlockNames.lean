import VisualBlocks.Proofs.Generation.Renaming
import VisualBlocks.Proofs.StatementOrder

/-!
# The names of the blocks

Blocks are known by their names, and so are their connections, the blocks that a pass has been to and
the places in the order of creation.  **None of this gets into a program**: if each block has a rule,
then a workspace with other names has the same program (`same_code`), and with these names it can be
built just as well.

The blocks may also be made in another order.  That matters only for the top-level blocks, and only
where several of them are at one place: these are read in the order in which they were made.
-/

set_option autoImplicit false

namespace VisualBlocks

open Generation Workspace

/-- The second workspace is the first one with other names for the blocks.  Its blocks have been made
in any order that keeps the order of the top-level blocks at each place. -/
structure Workspace.Renamed (ρ : String → String) (w w' : Workspace) : Prop where
  blocks : w'.blocks.Perm (w.rename ρ).blocks
  roots : ∀ x y : Int, w'.rootsAt x y = (w.rename ρ).rootsAt x y

/-- No names get into the journal of a workspace whose blocks all have rules. -/
theorem nameless_of_knows {g : Generator} {w : Workspace} {forest : List BlockTree}
    (hforest : w.IsForest forest) (hknown : ∀ b ∈ w.blocks, g.knows b.type = true) :
    ∀ e ∈ forest.flatMap fun t => t.entries g, e.Nameless := by
  intro e he
  obtain ⟨t, ht, he⟩ := List.mem_flatMap.1 he
  obtain ⟨blk, hblk, rfl⟩ := BlockTree.exists_block_of_mem_entries he
  obtain ⟨b, hb, -, hnode⟩ := exists_block_of_holds (hforest.held t ht) hblk
  refine ⟨g.handling_ne_cycle _, Generator.handling_ne_placeholder ?_⟩
  rw [← hnode]
  exact hknown b hb

/-- The program of a workspace is that of the workspace with other names. -/
theorem Workspace.Linked.code_rename {w : Workspace} (h : Linked w) {ρ : String → String}
    (hρ : ρ.Injective) (v : Vocabulary) (registry : Registry)
    (hknown : ∀ b ∈ w.blocks, (v.generator registry).knows b.type = true) :
    (v.generator registry).code (w.rename ρ) = (v.generator registry).code w := by
  obtain ⟨forest, hforest⟩ := h.exists_forest
  have hrenamed := Generator.generate_rename (Generator.ignoresNames v registry ρ) hρ
    (h.notedGenerate_eq v registry hforest) (nameless_of_knows hforest hknown)
  have htop : (w.graph.rename ρ).top = w.top.map ρ := rfl
  rw [Generator.code, Generator.graphCode, graph_rename, htop, hrenamed, Option.getD_some]

/-- **The names of the blocks do not influence the program.**  For every vocabulary, with any further
types: a workspace that can be built and whose blocks all have rules has a program.  If its blocks get
other names, no two of them the same and none of them empty, then they can be built with these names,
in any order that keeps the order of the top-level blocks at each place, and the program is the
same. -/
theorem Vocabulary.same_code (v : Vocabulary) (registry : Registry) {w w' : Workspace}
    (hbuilt : w.Built) (hknown : ∀ b ∈ w.blocks, (v.generator registry).knows b.type = true)
    {ρ : String → String} (hnamed : ∀ id ∈ w.ids, ρ id ≠ "")
    (hinjective : ∀ id ∈ w.ids, ∀ other ∈ w.ids, ρ id = ρ other → id = other)
    (hrenamed : Renamed ρ w w') :
    w'.Built ∧ ∃ text, (v.generator registry).generate w.graph w.top = some text ∧
      (v.generator registry).generate w'.graph w'.top = some text ∧
      (v.generator registry).code w = text ∧ (v.generator registry).code w' = text := by
  have hproper := hbuilt.proper
  obtain ⟨σ, hσ, hagree⟩ := exists_injective_extension hinjective
  have hsame : w.rename σ = w.rename ρ := hproper.linked.rename_congr hagree
  have hproper' : Proper w' := by
    refine Proper.perm ?_ hrenamed.blocks
    rw [← hsame]
    exact hproper.rename hσ fun id hid => hagree id hid ▸ hnamed id hid
  have htop : w'.top = (w.rename ρ).top := congrArg (List.map Block.id) (roots_eq hrenamed.roots)
  have hcode : (v.generator registry).code w' = (v.generator registry).code w := by
    rw [Generator.code_perm _ hrenamed.blocks hproper'.linked.nodup htop, ← hsame]
    exact hproper.linked.code_rename hσ v registry hknown
  refine ⟨hproper'.built, _, hproper.linked.generate_eq_code v registry, ?_, rfl, hcode⟩
  rw [hproper'.linked.generate_eq_code v registry, hcode]

/-- Two top-level blocks at one place, and a text in the first of them. -/
def twoPrints : Workspace :=
  ⟨[{ Block.fresh "first" "text_print" with inputs := ⟨[("TEXT", "greeting")]⟩ },
    Block.fresh "second" "text_print",
    { Block.fresh "greeting" "text" with
      fields := ⟨[("TEXT", "hello")]⟩
      parent := some ⟨"first", .input⟩ }]⟩

theorem twoPrints_built : twoPrints.Built :=
  ((((Workspace.Built.empty.step (.add "first" "text_print" rfl)).step
    (.add "second" "text_print" rfl)).step (.add "greeting" "text" rfl)).step
    (.setField "greeting" "TEXT" "hello" rfl)).step
    (.connectInput "first" "TEXT" "greeting" rfl)

/-- The names of the two blocks are exchanged, and the text is made before them. -/
def exchangedPrints : Workspace :=
  ⟨[{ Block.fresh "text" "text" with
      fields := ⟨[("TEXT", "hello")]⟩
      parent := some ⟨"second", .input⟩ },
    { Block.fresh "second" "text_print" with inputs := ⟨[("TEXT", "text")]⟩ },
    Block.fresh "first" "text_print"]⟩

/-- The names of the blocks in `exchangedPrints`. -/
def exchange (id : String) : String :=
  if id = "first" then "second" else if id = "second" then "first" else "text"

theorem twoPrints_exchanged : (∀ b ∈ twoPrints.blocks,
      (Vocabulary.standard.generator .empty).knows b.type = true) ∧
    Renamed exchange twoPrints exchangedPrints ∧ exchangedPrints.Built ∧
    (Vocabulary.standard.generator .empty).code twoPrints =
      "window.alert('hello');\n\nwindow.alert('');\n" ∧
    (Vocabulary.standard.generator .empty).code exchangedPrints =
      "window.alert('hello');\n\nwindow.alert('');\n" := by
  have hknown : ∀ b ∈ twoPrints.blocks,
      (Vocabulary.standard.generator .empty).knows b.type = true := by
    decide
  have hroots : (exchangedPrints.blocks.filter fun b => b.parent.isNone) =
      (twoPrints.rename exchange).blocks.filter fun b => b.parent.isNone := by
    decide
  have hrenamed : Renamed exchange twoPrints exchangedPrints :=
    ⟨by decide, fun x y => by rw [rootsAt, rootsAt, hroots]⟩
  obtain ⟨hbuilt, text, hgenerate, -, hcode, hcode'⟩ :=
    Vocabulary.same_code .standard .empty twoPrints_built hknown (by decide) (by decide) hrenamed
  have htop : twoPrints.top = ["first", "second"] := by
    simp [top, twoPrints, Block.fresh, List.mergeSort, Block.readsBefore]
  have htext : (Vocabulary.standard.generator .empty).generate twoPrints.graph
      ["first", "second"] = some "window.alert('hello');\n\nwindow.alert('');\n" := by
    decide +kernel
  rw [htop, htext] at hgenerate
  obtain rfl := Option.some.inj hgenerate
  exact ⟨hknown, hrenamed, hbuilt, hcode, hcode'⟩

end VisualBlocks

import VisualBlocks.Proofs.Generation.Precedence
import VisualBlocks.Proofs.Generation.Roots
import VisualBlocks.Proofs.Workspace.Forest

/-!
# Generated programs

What is generated from a workspace is a program, and it has the form of the workspace
(`built_program`).  The parts are in place: the blocks of a linked workspace form trees, the text of
a forest stands as statements of its form, and such a text is parsed as these statements.

A block of a type that the generator does not know becomes a comment.  Its type and its identifier
stand in the comment as they are, so nothing is said here of those that go over the end of a line.
-/

set_option autoImplicit false

namespace VisualBlocks

open Script
open Generation (Generator Walkable declared)

namespace Workspace

variable {w : Workspace}

/-- Do the types and identifiers of all blocks without a rule stay on one line? -/
def UnknownOnOneLine (w : Workspace) (g : Generator) : Prop :=
  ∀ b ∈ w.blocks, g.knows b.type = false → '\n' ∉ b.type.toList ∧ '\n' ∉ b.id.toList

/-- Where all blocks have rules, nothing is said of the others. -/
theorem unknownOnOneLine_of_knows {g : Generator} (h : ∀ b ∈ w.blocks, g.knows b.type = true) :
    w.UnknownOnOneLine g := by
  intro b hb hunknown
  rw [h b hb] at hunknown
  cases hunknown

/-- The trees of a linked workspace can be turned into text. -/
theorem Linked.walkable (h : Linked w) {v : Vocabulary}
    (honeLine : w.UnknownOnOneLine v.preset.generator) {t : BlockTree} (hheld : w.graph.Holds t) :
    Walkable v ⟨v.types⟩ w.graph t := by
  refine ⟨hheld, h.nodup_tree hheld, fun b hb hunknown => ?_⟩
  obtain ⟨block, hblock, hid, hnode⟩ := exists_block_of_holds hheld hb
  rw [← hnode] at hunknown ⊢
  rw [← hid]
  exact honeLine block hblock hunknown

/-- **The text of a linked workspace is a program of the form of its forest.**  Without blocks that
do something outside the program there is no name in it of anything outside.  It names nothing that
it does not declare but the words of numbers without digits, and its loops have the counters that
the pass has named. -/
theorem Linked.generated (h : Linked w) {v : Vocabulary}
    (honeLine : w.UnknownOnOneLine v.preset.generator) {forest : List BlockTree}
    (hforest : w.IsForest forest) :
    ∃ chunks pass program text,
      w.top.mapM (v.preset.generator.root w.graph) .start = some (chunks, pass) ∧
        parseProgram (v.preset.generator.code w) = .ok program ∧
        Writes text (stripStatements program.body) ∧
        Script.outlines program.body = declared pass.names ++
          forest.flatMap (fun t => t.outlines v.preset.generator.knows) ∧
        ((∀ t ∈ forest, t.Quiet) → Generation.Harmless text) ∧
        Scoped (Generation.outerScope fun word => ∃ t ∈ forest, t.Odd word) program.body ∧
        bodyCounters program.body = pass.counters.reverse := by
  obtain ⟨chunks, pass, hrun, hstands⟩ := Generation.code_stands (literalDefaults_types v)
    hforest.roots (fun t ht => h.walkable honeLine (hforest.held t ht)) (h.nodup_forest hforest)
  obtain ⟨program, text, hparsed, hrest⟩ := hstands.parses
  exact ⟨chunks, pass, program, text, hrun, hparsed, hrest⟩

/-- The program of a linked workspace and its form. -/
theorem Linked.program (h : Linked w) {v : Vocabulary}
    (honeLine : w.UnknownOnOneLine v.preset.generator) {forest : List BlockTree}
    (hforest : w.IsForest forest) :
    ∃ chunks pass program text,
      w.top.mapM (v.preset.generator.root w.graph) .start = some (chunks, pass) ∧
        parseProgram (v.preset.generator.code w) = .ok program ∧
        Script.outlines program.body = declared pass.names ++
          forest.flatMap (fun t => t.outlines v.preset.generator.knows) ∧
        Writes text (stripStatements program.body) ∧
        ((∀ t ∈ forest, t.Quiet) → Generation.Harmless text) := by
  obtain ⟨chunks, pass, program, text, hrun, hparsed, hwrites, hform, hharmless, -⟩ :=
    h.generated honeLine hforest
  exact ⟨chunks, pass, program, text, hrun, hparsed, hform, hwrites, hharmless⟩

end Workspace

/-- **Generated text is a program of the form of the workspace.**  The blocks of a workspace that
the operations have made form a forest.  If the generator has a rule for each block, then the text
is parsed as a program: the declaration of the variables, where any have been recorded, and then
the statements that the trees of the forest stand for, in reading order. -/
theorem built_program (v : Vocabulary) (w : Workspace) (hbuilt : w.Built)
    (hruled : ∀ b ∈ w.blocks, v.preset.generator.knows b.type = true) :
    (∃ forest, w.IsForest forest) ∧ ∀ forest, w.IsForest forest →
      ∃ chunks pass program,
        w.top.mapM (v.preset.generator.root w.graph) .start = some (chunks, pass) ∧
          parseProgram (v.preset.generator.code w) = .ok program ∧
          Script.outlines program.body = (if pass.known = [] then [] else [.declare]) ++
            forest.flatMap (fun t => t.outlines v.preset.generator.knows) := by
  have hlinked := hbuilt.linked
  have honeLine : w.UnknownOnOneLine v.preset.generator := by
    intro b hb hunknown
    rw [hruled b hb] at hunknown
    cases hunknown
  refine ⟨hlinked.exists_forest, fun forest hforest => ?_⟩
  obtain ⟨chunks, pass, program, text, hrun, hparsed, hform, -, -⟩ :=
    hlinked.program honeLine hforest
  refine ⟨chunks, pass, program, hrun, hparsed, ?_⟩
  have hdeclared : declared pass.names = if pass.known = [] then [] else [.declare] := by
    rw [declared, Generation.Pass.names]
    exact if_congr List.map_eq_nil_iff rfl rfl
  rw [hform, hdeclared]

/-- A loop that prints. -/
def printingLoop : Workspace :=
  ⟨[{ Block.fresh "loop" "controls_repeat_ext" with inputs := ⟨[("DO", "print")]⟩ },
    { Block.fresh "print" "text_print" with parent := some ⟨"loop", .input⟩ }]⟩

theorem printingLoop_program :
    (∃ forest, printingLoop.IsForest forest) ∧ ∀ forest, printingLoop.IsForest forest →
      ∃ chunks pass program,
        printingLoop.top.mapM (Vocabulary.standard.preset.generator.root printingLoop.graph)
            .start = some (chunks, pass) ∧
          parseProgram (Vocabulary.standard.preset.generator.code printingLoop) = .ok program ∧
          Script.outlines program.body = (if pass.known = [] then [] else [.declare]) ++
            forest.flatMap (fun t => t.outlines Vocabulary.standard.preset.generator.knows) := by
  have hbuilt : printingLoop.Built :=
    ((Workspace.Built.empty.step (.add "loop" "controls_repeat_ext" rfl)).step
      (.add "print" "text_print" rfl)).step (.connectInput "loop" "DO" "print" rfl)
  exact built_program .standard printingLoop hbuilt (by decide)

end VisualBlocks

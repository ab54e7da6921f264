import VisualBlocks.Proofs.Generation.Alike
import VisualBlocks.Proofs.StatementOrder

/-!
# Vocabularies extend the standard blocks

The automation and the canvas vocabulary add rules to the standard ones, and declare further types.
**On blocks that none of the added rules is for, all vocabularies agree** (`same_program`): the rules
that are left are the standard ones, and these do not look at the declared types.  It does not matter
whether the types of the blocks are known at all, or their shapes are any good; a block without a
rule is marked by its type and its name, which every vocabulary does alike.
-/

set_option autoImplicit false

namespace VisualBlocks

open Generation Workspace

namespace Vocabulary

/-- The types for which some vocabulary has a rule that is not one of the standard rules. -/
def addedTypes : List String := (Automation.rules ++ Canvas.rules).map (·.1)

variable {type : String}

/-- **Besides the added types, the rules are the standard ones.** -/
theorem get?_rules (v : Vocabulary) (registry : Registry) (h : type ∉ addedTypes) :
    (v.generator registry).rules.get? type = Standard.generator.rules.get? type := by
  rw [addedTypes, List.map_append, List.mem_append, not_or] at h
  cases v with
  | standard => rfl
  | automation => exact Table.get?_foldl_set Automation.rules Standard.generator.rules h.1
  | canvas => exact Table.get?_foldl_set Canvas.rules Standard.generator.rules h.2

/-- A block that no added rule is for looks the same to the generators of all vocabularies, over
whatever types. -/
theorem alike (v v' : Vocabulary) (registry registry' : Registry) {n : Node}
    (h : n.type ∉ addedTypes) : (v.generator registry).Alike (v'.generator registry') n n where
  type := rfl
  inputs := rfl
  next := rfl
  rule := by rw [get?_rules v' registry' h, get?_rules v registry h]
  agrees rule hrule := by
    rw [get?_rules v registry h] at hrule
    have hmem : (n.type, rule) ∈ Standard.rules := by
      rcases Table.get?_foldl_set_eq_some Standard.rules .empty hrule with hmem | hempty
      · exact hmem
      · cases hempty
    refine agrees_standard ?_ _ hmem rfl
    have hlanguage : (v'.generator registry').language = (v.generator registry).language := by
      rw [generator_language, generator_language]
    have hindent : (v'.generator registry').indent = (v.generator registry).indent := by
      cases v <;> cases v' <;> rfl
    exact ⟨rfl, rfl, fun _ => rfl, rfl, rfl, fun _ => rfl, hlanguage, hindent⟩

/-- The program of such blocks is the same in all vocabularies. -/
theorem generate_eq (v v' : Vocabulary) (registry registry' : Registry) {w : Workspace}
    (h : ∀ b ∈ w.blocks, b.type ∉ addedTypes) (roots : List String) :
    (v'.generator registry').generate w.graph roots =
      (v.generator registry).generate w.graph roots := by
  have hlanguage : (v'.generator registry').language = (v.generator registry).language := by
    rw [generator_language, generator_language]
  have hdeclares : (v'.generator registry').declareVariables =
      (v.generator registry).declareVariables := by
    cases v <;> cases v' <;> rfl
  refine Generator.generate_congr hlanguage hdeclares rfl (fun id => alike v v' _ _ ?_) roots
  rw [Generator.nodeAt, node?_graph]
  cases hget : w.get? id with
  | none =>
    show "" ∉ addedTypes
    decide
  | some b => exact h b (List.mem_of_find?_eq_some hget)

/-- **The vocabularies extend the standard one conservatively.**  A workspace that can be reached and
holds no block of an added type has one program in all of them, whichever types are declared: those
of the presets, or others as well. -/
theorem same_program (w : Workspace) (hreachable : w.Reachable)
    (hplain : ∀ b ∈ w.blocks, b.type ∉ addedTypes) :
    ∃ text, ∀ (v : Vocabulary) (registry : Registry),
      (v.generator registry).generate w.graph w.top = some text ∧
        (v.generator registry).code w = text := by
  refine ⟨(standard.generator .empty).code w, fun v registry => ?_⟩
  have hgenerate := hreachable.linked.generate_eq_code v registry
  have hsame := generate_eq standard v .empty registry hplain w.top
  have hcode : (v.generator registry).code w = (standard.generator .empty).code w := by
    rw [hreachable.linked.generate_eq_code standard .empty, hgenerate] at hsame
    exact Option.some.inj hsame
  exact ⟨hcode ▸ hgenerate, hcode⟩

end Vocabulary

/-- A condition of a shape that is none, with a statement for its value and below it a block of a
type that is not known. -/
def oddBlocks : Workspace :=
  ⟨[{ Block.fresh "choice" "controls_if" with
      mutation := ⟨[("elseif", "many")]⟩
      inputs := ⟨[("IF0", "print")]⟩
      next := some "odd" },
    { Block.fresh "print" "text_print" with parent := some ⟨"choice", .input⟩ },
    { Block.fresh "odd" "sap_unheard_of" with
      fields := ⟨[("FIELD", "x")]⟩
      parent := some ⟨"choice", .next⟩ }]⟩

theorem oddBlocks_reachable : oddBlocks.Reachable :=
  (((((((Workspace.Reachable.empty.step (.add "choice" "controls_if" rfl)).step
    (.add "print" "text_print" rfl)).step (.add "odd" "sap_unheard_of" rfl)).step
    (.setMutation "choice" "elseif" "many" rfl)).step (.setField "odd" "FIELD" "x" rfl)).step
    (.connectInput "choice" "IF0" "print" rfl)).step (.connectNext "choice" "odd" rfl))

/-- All vocabularies mark the same blocks in it. -/
theorem oddBlocks_program : (∀ b ∈ oddBlocks.blocks, b.type ∉ Vocabulary.addedTypes) ∧
    ∀ v : Vocabulary, v.preset.generator.code oddBlocks =
      "if (/* Unsupported block type: text_print */ false) \x7b\n\x7d\n" ++
        "// Unsupported block type: sap_unheard_of (block odd)\n" := by
  have hplain : ∀ b ∈ oddBlocks.blocks, b.type ∉ Vocabulary.addedTypes := by decide
  obtain ⟨text, htext⟩ := Vocabulary.same_program oddBlocks oddBlocks_reachable hplain
  have hstandard : (Vocabulary.standard.generator .empty).code oddBlocks =
      "if (/* Unsupported block type: text_print */ false) \x7b\n\x7d\n" ++
        "// Unsupported block type: sap_unheard_of (block odd)\n" := by
    decide +kernel
  refine ⟨hplain, fun v => ?_⟩
  rw [← hstandard, (htext .standard .empty).2]
  exact (htext v ⟨v.types⟩).2

end VisualBlocks

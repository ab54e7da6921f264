import VisualBlocks.Proofs.Generation.Arrivals
import VisualBlocks.Proofs.Generation.Entries
import VisualBlocks.Proofs.Generation.Levels
import VisualBlocks.Vocabulary

/-!
# Generation on tangled graphs

The graph of a workspace is a forest, but a graph may come from elsewhere: blocks may be shared,
links may lead nowhere, and chains may run in circles, along the chain or through a body.
**Generation ends all the same, as long as no value is part of itself** (`ends_in_order`): a rule
makes a statement out of a block once at most, and a chain that arrives where one has been before
writes a warning and stops.

The blocks that chains have reached are those at which the walk of the whole pass has arrived.  A
top-level block with a value is not one of them: it is an expression there, and only what follows it
is a chain.
-/

set_option autoImplicit false

namespace VisualBlocks

open Generation

variable {g : Generator} {graph : Graph}

namespace Generation.Generator

/-- No value is part of itself, if a rank falls from each value to what it takes in. -/
theorem Grounded.of_rank (rank : String → Nat)
    (h : ∀ e ∈ graph.nodes, g.handling e.2.type = .expression →
      ∀ child ∈ e.2.inputs.values, rank child < rank e.1) : g.Grounded graph := by
  have htakes (a b : String) (hab : g.Takes graph a b) : rank b < rank a := by
    obtain ⟨⟨emit, hrule⟩, hb⟩ := hab
    rw [site] at hrule hb
    cases hnode : graph.node? a with
    | none =>
      rw [hnode] at hb
      cases hb
    | some node =>
      rw [hnode, Option.getD_some] at hrule hb
      exact h (a, node) (Table.mem_of_lookup hnode) (by rw [handling, hrule]) b hb
  intro id hloop
  have hfalls (b : String) (hb : Relation.TransGen (g.Takes graph) id b) : rank b < rank id := by
    induction hb with
    | single hab => exact htakes id _ hab
    | tail _ hbc ih => exact (htakes _ _ hbc).trans ih
  exact Nat.lt_irrefl _ (hfalls id hloop)

/-- **Generation ends on every graph in which no value is part of itself, and its events are in
order.**  For each generator, each such graph and any top-level blocks there is a program, and it is
the same however many levels of recursion there may be from `Generator.levels` on.  In the walk that
makes it, the rule of a block makes a statement once at most.  Each time that a chain arrives at a
block at which one has arrived before, the next thing is that the chain ends there, and all that it
has written from the block on is one warning. -/
theorem ends_in_order (g : Generator) (graph : Graph) (roots : List String)
    (hgrounded : g.Grounded graph) :
    ∃ code events,
      (∀ levels ≥ Generator.levels graph, g.generateWithin graph levels roots = some code) ∧
      g.generate graph roots = some code ∧
      g.watchedGenerate graph roots = some (code, events) ∧
      (Event.ran events).Nodup ∧
      ∀ before id after, events = before ++ .arrive id :: after → .arrive id ∈ before →
        ∃ rest, after = .leave id (g.language.cycleWarning id) :: rest := by
  obtain ⟨code, hcode⟩ := exists_code hgrounded roots
  have hwatched := g.map_fst_watchedGenerate graph roots
  rw [hcode] at hwatched
  obtain ⟨⟨_, events⟩, hevents, rfl⟩ := Option.map_eq_some_iff.1 hwatched
  obtain ⟨q, hobserved⟩ := observed_of_watched hevents
  refine ⟨_, events, fun levels hlevels => ?_, hcode, hevents, hobserved.once, ?_⟩
  · exact g.generateWithin_of_le graph hlevels (generate_eq_generateWithin g graph roots ▸ hcode)
  · exact fun before id after hsplit hreached =>
      hobserved.stops before after id hsplit (.inr hreached)

end Generation.Generator

/-- A loop whose body leads back to it, two blocks that show the same text, which takes in one word
twice, and a link to a block that does not exist. -/
def tangledBlocks : Graph where
  top := ["loop"]
  nodes :=
    [("loop", { Node.bare "controls_repeat" with
        inputs := ⟨[("DO", "show")]⟩
        next := some "tell" }),
     ("show", { Node.bare "text_print" with
        inputs := ⟨[("TEXT", "join")]⟩
        next := some "loop" }),
     ("tell", { Node.bare "text_print" with
        inputs := ⟨[("TEXT", "join")]⟩
        next := some "ghost" }),
     ("join", { Node.bare "text_join" with
        mutation := ⟨[("items", "2")]⟩
        inputs := ⟨[("ADD0", "word"), ("ADD1", "word")]⟩ }),
     ("word", Node.bare "text")]

theorem tangledBlocks_grounded :
    Vocabulary.automation.preset.generator.Grounded tangledBlocks :=
  .of_rank (fun id => if id = "join" then 1 else 0) (by decide +kernel)

theorem tangledBlocks_end :
    Vocabulary.automation.preset.generator.Grounded tangledBlocks ∧
      ∃ code events rest,
        Vocabulary.automation.preset.generator.generate tangledBlocks ["loop", "join", "tell"] =
          some code ∧
        Vocabulary.automation.preset.generator.watchedGenerate tangledBlocks
          ["loop", "join", "tell"] = some (code, events) ∧
        Event.ran events = ["loop", "show", "tell"] ∧
        events = [.arrive "loop", .run "loop", .arrive "show", .run "show", .arrive "loop"] ++
          .leave "loop" "// warning: cyclic block chain at loop\n" :: rest := by
  have hseen : (Vocabulary.automation.preset.generator.watchedGenerate tangledBlocks
      ["loop", "join", "tell"]).map (fun s => (Event.ran s.2, s.2.take 5)) =
        some (["loop", "show", "tell"],
          [.arrive "loop", .run "loop", .arrive "show", .run "show", .arrive "loop"]) := by
    decide +kernel
  obtain ⟨code, events, -, hcode, hwatched, -, hstops⟩ :=
    Generator.ends_in_order Vocabulary.automation.preset.generator tangledBlocks
      ["loop", "join", "tell"] tangledBlocks_grounded
  rw [hwatched, Option.map_some, Option.some_inj] at hseen
  obtain ⟨hran, htake⟩ := Prod.mk.inj hseen
  have hsplit : events = [.arrive "loop", .run "loop", .arrive "show", .run "show"] ++
      .arrive "loop" :: events.drop 5 := by
    have hrejoined := List.take_append_drop 5 events
    rw [htake] at hrejoined
    exact hrejoined.symm
  obtain ⟨rest, hrest⟩ := hstops _ _ _ hsplit List.mem_cons_self
  refine ⟨tangledBlocks_grounded, code, events, rest, hcode, hwatched, hran, ?_⟩
  have hwarning : Vocabulary.automation.preset.generator.language.cycleWarning "loop" =
      "// warning: cyclic block chain at loop\n" := by
    decide +kernel
  rw [← hwarning, ← hrest]
  exact hsplit

end VisualBlocks

import VisualBlocks.Proofs.Generation.Journal

/-!
# Traces

A journal leaves out the blocks whose values are read.  A trace has them too: it is what a traced walk
writes down, which goes through a graph in the way of `Generator.generate` and notes every block that
it comes to, in a chain or for the value of an input, with what becomes of it.  Where a comment stands
for a block, in a line of its own or before the default of an input, the trace says `placeholder`.

**A traced walk without its trace is the walk** (`map_fst_tracedGenerate`), on every graph.
-/

set_option autoImplicit false

namespace VisualBlocks
namespace Generation
namespace Generator

/-! ## Traced walks -/

mutual

/-- The expression of a block, and how tightly it binds. -/
def tracedExpression (g : Generator) (graph : Graph) :
    Nat → String → String → Noted Entry (String × Order)
  | 0, _, _ => .plain .endless
  | levels + 1, id, default =>
    let site := g.site graph id
    match g.rules.get? site.node.type with
    | some (.value emit) => do
      Noted.note ⟨id, .expression⟩
      (emit site).run
        (g.notedAnswer (g.tracedExpression graph levels) (g.tracedChain graph levels) site.node)
    | _ => do
      Noted.note ⟨id, .placeholder⟩
      return (g.language.unsupportedValue site.node.type default, .atomic)

/-- The statements of a chain. -/
def tracedChain (g : Generator) (graph : Graph) : Nat → Option String → Noted Entry String
  | _, none => pure ""
  | 0, some _ => .plain .endless
  | levels + 1, some id =>
    g.notedStep graph
      (g.notedAnswer (g.tracedExpression graph levels) (g.tracedChain graph levels)
        (g.site graph id).node)
      (g.tracedChain graph levels) id

end

/-- The text of a top-level block and of what follows it. -/
def tracedRoot (g : Generator) (graph : Graph) (id : String) : Noted Entry String := do
  let node := (g.site graph id).node
  match g.rules.get? node.type with
  | some (.value _) =>
    let (code, _) ← g.tracedExpression graph (levels graph) id "null"
    return asStatement code ++ (← g.tracedChain graph (levels graph) node.next)
  | _ => g.tracedChain graph (levels graph) (some id)

/-- The program of the given top-level blocks, and the trace of its generation. -/
def tracedGenerate (g : Generator) (graph : Graph) (roots : List String) :
    Option (String × List Entry) := do
  let (chunks, pass, trace) ← (roots.mapM (g.tracedRoot graph)).run (.start, [])
  let body := String.intercalate "\n" (chunks.filter fun c => !c.isEmpty)
  return (Text.tidy (g.declaration pass.names ++ body), trace)

/-! ## Without the trace -/

variable {g : Generator} {graph : Graph}

theorem tracedChain_none (levels : Nat) : g.tracedChain graph levels none = pure "" := by
  rw [tracedChain.eq_def]

variable (g graph)

theorem erasesTraces (levels : Nat) :
    ErasesWalks g graph (g.tracedExpression graph) (g.tracedChain graph) levels := by
  refine erasesWalks_of_succ (fun id default => ?_) (fun id => ?_) tracedChain_none
    (fun levels h id default => ?_) (fun levels h id => ?_) levels
  · rw [tracedExpression]
  · rw [tracedChain]
  · rw [tracedExpression, expression]
    cases g.rules.get? (g.site graph id).node.type with
    | none => exact .note _ (.pure _)
    | some rule =>
      cases rule with
      | statement emit => exact .note _ (.pure _)
      | value emit => exact .note _ (.run (h.answer _) _)
  · rw [tracedChain]
    exact erases_step (h.answer _) h.chain

/-- **A traced walk without its trace is the walk**, so it gives the same program. -/
theorem map_fst_tracedGenerate (roots : List String) :
    (g.tracedGenerate graph roots).map Prod.fst = g.generate graph roots :=
  map_fst_program (fun id => (erasesTraces g graph _).root id) roots

end Generator
end Generation
end VisualBlocks

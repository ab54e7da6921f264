import VisualBlocks.Generation.Pass
import VisualBlocks.Generation.Rule
import VisualBlocks.Workspace.Basic

/-!
# Walking a graph

Generation follows the chains of a graph and answers what the rules ask for.  A chain stops at a
block that a chain has reached before, so chains end on every graph.  Values have no such guard:
where a block is part of its own value there is no text, and the outcome is `none`.

The recursion is bounded by a number of levels.  Each level of chains reaches a new block, but for
two more levels at the end, and between two of them there are as many levels of values as there
are blocks, unless one is part of itself; `Generator.levels` allows for both.
-/

set_option autoImplicit false

namespace VisualBlocks
namespace Generation

/-- A step of a pass, which may come to no end. -/
abbrev Walk (α : Type) : Type := StateT Pass Option α

namespace Walk

/-- No text. -/
def endless {α : Type} : Walk α := fun _ => none

/-- A step that hands out a name. -/
def naming (f : Pass → String × Pass) : Walk String := fun p => some (f p)

end Walk

/-- A statement with the line break that ends it. -/
def closeLine (code : String) : String :=
  if code.isEmpty || code.toList.getLast? == some '\n' then code else code ++ "\n"

/-- An expression as a statement. -/
def asStatement (code : String) : String := code ++ ";\n"

namespace Language

/-- What stands for a block that no rule can turn into an expression. -/
def unsupportedValue (l : Language) (type default : String) : String :=
  l.inlineComment ("Unsupported block type: " ++ type) ++ " " ++ default

/-- What stands for a block that no rule can turn into a statement. -/
def unsupportedStatement (l : Language) (type id : String) : String :=
  l.lineComment ("Unsupported block type: " ++ type ++ " (block " ++ id ++ ")")

/-- What stands where a chain comes back to a block. -/
def cycleWarning (l : Language) (id : String) : String :=
  l.lineComment ("warning: cyclic block chain at " ++ id)

end Language

namespace Generator

/-- Answers the request of the rule for a node, by way of the text of other blocks. -/
def answer (g : Generator) (expression : String → String → Walk (String × Order))
    (chain : Option String → Walk String) (node : Node) : Request → Walk String
  | .value socket outer default =>
    match node.inputs.get? socket with
    | none => pure default
    | some child => do
      let (code, inner) ← expression child default
      return g.language.enclose outer inner code
  | .body socket => chain (node.inputs.get? socket)
  | .variableName raw => Walk.naming fun p => p.variableName g.language raw
  | .freshName base => Walk.naming fun p => p.freshName g.language base

mutual

/-- The expression of a block, and how tightly it binds. -/
def expression (g : Generator) (graph : Graph) :
    Nat → String → String → Walk (String × Order)
  | 0, _, _ => Walk.endless
  | levels + 1, id, default =>
    let site := g.site graph id
    match g.rules.get? site.node.type with
    | some (.value emit) =>
      (emit site).run (g.answer (g.expression graph levels) (g.chain graph levels) site.node)
    | _ => pure (g.language.unsupportedValue site.node.type default, .atomic)

/-- The statements of a chain. -/
def chain (g : Generator) (graph : Graph) : Nat → Option String → Walk String
  | _, none => pure ""
  | 0, some _ => Walk.endless
  | levels + 1, some id => do
    if (← get).visited.contains id then
      return g.language.cycleWarning id
    modify fun p => p.visit id
    let site := g.site graph id
    let answer := g.answer (g.expression graph levels) (g.chain graph levels) site.node
    let code ← match g.rules.get? site.node.type with
      | some (.statement emit) => closeLine <$> (emit site).run answer
      | some (.value emit) => (fun e => asStatement e.1) <$> (emit site).run answer
      | none => pure (g.language.unsupportedStatement site.node.type id)
    return code ++ (← g.chain graph levels site.node.next)

end

/-- The levels of recursion that a graph can need. -/
def levels (graph : Graph) : Nat := Nat.pow (graph.nodes.length + 2) 2

/-- The text of a top-level block and of what follows it. -/
def root (g : Generator) (graph : Graph) (id : String) : Walk String := do
  let node := (g.site graph id).node
  match g.rules.get? node.type with
  | some (.value _) =>
    let (code, _) ← g.expression graph (levels graph) id "null"
    return asStatement code ++ (← g.chain graph (levels graph) node.next)
  | _ => g.chain graph (levels graph) (some id)

/-- The declaration of the variables, where there are any and the generator declares them. -/
def declaration (g : Generator) (names : List String) : String :=
  if names.isEmpty || !g.declareVariables then ""
  else "var " ++ String.intercalate ", " names ++ ";\n\n"

/-- The program of the given top-level blocks: a paragraph for each that has any text. -/
def generate (g : Generator) (graph : Graph) (roots : List String) : Option String := do
  let (chunks, pass) ← (roots.mapM (g.root graph)).run .start
  let body := String.intercalate "\n" (chunks.filter fun c => !c.isEmpty)
  return Text.tidy (g.declaration pass.names ++ body)

/-- The program of a whole graph; empty where there is none. -/
def graphCode (g : Generator) (graph : Graph) : String := (g.generate graph graph.top).getD ""

/-- The program of a workspace. -/
def code (g : Generator) (w : Workspace) : String := g.graphCode w.graph

end Generator
end Generation
end VisualBlocks

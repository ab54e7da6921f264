import VisualBlocks.Generation.Emission
import VisualBlocks.Graph
import VisualBlocks.Schema.Registry

/-!
# Rules and generators

A generator knows a language and has a rule for each type of blocks it can turn into text.  A rule
makes a statement or a value out of a block; what it can see is the `Site`: the block itself, the
conventions of the language and the declared block types.
-/

set_option autoImplicit false

namespace VisualBlocks
namespace Generation

/-- What a rule sees. -/
structure Site where
  node : Node
  language : Language
  indent : String
  registry : Registry

namespace Site

/-- The text of a field. -/
def field? (s : Site) (name : String) : Option String := s.node.fields.get? name

/-- The text of a field, or a default. -/
def fieldOr (s : Site) (name default : String) : String := (s.field? name).getD default

/-- A text that describes the shape of the block. -/
def mutation? (s : Site) (key : String) : Option String := s.node.mutation.get? key

/-- Does the block have a block in the input? -/
def isFilled (s : Site) (socket : String) : Bool := s.node.inputs.contains socket

/-- The literal that is declared for an empty input. -/
def socketDefault (s : Site) (socket : String) : String :=
  (s.registry.socketDefault? s.node.type socket).getD "''"

/-- The literal that can stand for the value of the block, going by its declared kind. -/
def outputDefault (s : Site) : String :=
  ((s.registry.get? s.node.type).bind BlockType.outputLiteral?).getD "''"

/-- Asks for the expression in an input; the declared literal stands in when it is empty. -/
def value (s : Site) (socket : String) (outer : Order) : Emission String :=
  Emission.value socket outer (s.socketDefault socket)

/-- Asks for the statements in an input, indented. -/
def indentedBody (s : Site) (socket : String) : Emission String := do
  return Text.indentWith s.indent (← Emission.body socket)

end Site

/-- How blocks of a type become text. -/
inductive Rule where
  | statement (emit : Site → Emission String)
  | value (emit : Site → Emission (String × Order))

/-- A language and the rules for writing it. -/
structure Generator where
  name : String
  rules : Table Rule
  language : Language
  registry : Registry
  indent : String
  declareVariables : Bool

namespace Generator

/-- A generator with the usual layout that knows of no declared types. -/
def ofRules (name : String) (rules : List (String × Rule)) (language : Language) : Generator :=
  ⟨name, .ofList rules, language, .empty, "  ", true⟩

/-- A generator of a new name with further rules, which take the place of rules for the same
types. -/
def extend (g : Generator) (name : String) (rules : List (String × Rule)) : Generator :=
  { g with name, rules := rules.foldl (fun t r => t.set r.1 r.2) g.rules }

/-- What the rule for a block sees.  A block that does not exist has no type and holds nothing. -/
def site (g : Generator) (graph : Graph) (id : String) : Site :=
  ⟨(graph.node? id).getD (.bare ""), g.language, g.indent, g.registry⟩

end Generator
end Generation
end VisualBlocks

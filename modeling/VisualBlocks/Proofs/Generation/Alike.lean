import VisualBlocks.Proofs.Generation.Rules
import VisualBlocks.Proofs.Table

/-!
# Blocks that are alike

A generator sees of a block its type and its links, and the rule for its type sees the rest.  Two
blocks are alike to two generators if the rules for them are the same and do the same for both.
**Graphs of blocks that are alike have the same program** (`generate_congr`), and the order in which
a workspace keeps its blocks does not matter to it (`code_perm`).

The standard rules look at little of a site (`Site.Resembles`): at the shape of a block in three
places only, and of the links of the block whether there are any.  The declared types they do not
look at.  So blocks that differ in how their shapes are written are alike if these say the same
(`SameShape.alike`).
-/

set_option autoImplicit false

namespace VisualBlocks
namespace Generation

/-- Does the rule do the same at both sites? -/
def Rule.Agrees (s s' : Site) : Rule → Prop
  | .statement emit => emit s = emit s'
  | .value emit => emit s = emit s'

/-- Two blocks that look the same to two generators. -/
structure Generator.Alike (g g' : Generator) (n n' : Node) : Prop where
  type : n'.type = n.type
  inputs : n'.inputs = n.inputs
  next : n'.next = n.next
  rule : g'.rules.get? n.type = g.rules.get? n.type
  agrees : ∀ rule, g.rules.get? n.type = some rule →
    rule.Agrees ⟨n, g.language, g.indent, g.registry⟩ ⟨n', g'.language, g'.indent, g'.registry⟩

namespace Generator

theorem Alike.refl (g : Generator) (n : Node) : g.Alike g n n where
  type := rfl
  inputs := rfl
  next := rfl
  rule := rfl
  agrees rule _ := by cases rule <;> rfl

section Graphs

variable {g g' : Generator} {graph graph' : Graph}

/-- The block under an identifier; one that does not exist holds nothing. -/
def nodeAt (graph : Graph) (id : String) : Node := (graph.node? id).getD (.bare "")

theorem site_eq (g : Generator) (graph : Graph) (id : String) :
    g.site graph id = ⟨nodeAt graph id, g.language, g.indent, g.registry⟩ := rfl

/-- The same request has the same answer. -/
theorem answer_congr (hlanguage : g'.language = g.language)
    (expression : String → String → Walk (String × Order)) (chain : Option String → Walk String)
    {n n' : Node} (h : n'.inputs = n.inputs) :
    g'.answer expression chain n' = g.answer expression chain n := by
  funext request
  cases request with
  | value socket outer default => rw [answer, answer, h, hlanguage]
  | body socket => rw [answer, answer, h]
  | variableName raw => rw [answer, answer, hlanguage]
  | freshName base => rw [answer, answer, hlanguage]

/-- **The text of a block is the same in both graphs.** -/
theorem expression_chain_congr (hlanguage : g'.language = g.language)
    (h : ∀ id, g.Alike g' (nodeAt graph id) (nodeAt graph' id)) (levels : Nat) :
    g'.expression graph' levels = g.expression graph levels ∧
      g'.chain graph' levels = g.chain graph levels := by
  induction levels with
  | zero =>
    refine ⟨rfl, ?_⟩
    funext id
    cases id <;> rfl
  | succ levels ih =>
    constructor
    · funext id default
      have hid := h id
      have hanswer := answer_congr hlanguage (g.expression graph levels) (g.chain graph levels)
        hid.inputs
      rw [expression, expression, ih.1, ih.2]
      simp only [site_eq, hid.type, hid.rule, hanswer, hlanguage]
      cases hrule : g.rules.get? (nodeAt graph id).type with
      | none => rfl
      | some rule =>
        have hagrees := hid.agrees rule hrule
        rw [hlanguage] at hagrees
        cases rule with
        | statement emit => rfl
        | value emit => exact congrArg (fun e => Emission.run _ e) hagrees.symm
    · funext id
      cases id with
      | none => rw [chain, chain]
      | some id =>
        have hid := h id
        have hanswer := answer_congr hlanguage (g.expression graph levels) (g.chain graph levels)
          hid.inputs
        rw [chain, chain, ih.1, ih.2]
        simp only [site_eq, hid.type, hid.next, hid.rule, hanswer, hlanguage]
        cases hrule : g.rules.get? (nodeAt graph id).type with
        | none => rfl
        | some rule =>
          have hagrees := hid.agrees rule hrule
          rw [hlanguage] at hagrees
          cases rule with
          | statement emit =>
            have hemit : emit ⟨nodeAt graph id, g.language, g.indent, g.registry⟩ =
              emit ⟨nodeAt graph' id, g.language, g'.indent, g'.registry⟩ := hagrees
            simp only [hemit]
          | value emit =>
            have hemit : emit ⟨nodeAt graph id, g.language, g.indent, g.registry⟩ =
              emit ⟨nodeAt graph' id, g.language, g'.indent, g'.registry⟩ := hagrees
            simp only [hemit]

/-- **Graphs of blocks that are alike have the same program**, whichever of the generators writes
it. -/
theorem generate_congr (hlanguage : g'.language = g.language)
    (hdeclares : g'.declareVariables = g.declareVariables)
    (hlength : graph'.nodes.length = graph.nodes.length)
    (h : ∀ id, g.Alike g' (nodeAt graph id) (nodeAt graph' id)) (roots : List String) :
    g'.generate graph' roots = g.generate graph roots := by
  have hlevels : levels graph' = levels graph := by rw [levels, levels, hlength]
  have hroot : g'.root graph' = g.root graph := by
    funext id
    have hid := h id
    obtain ⟨hexpression, hchain⟩ := expression_chain_congr hlanguage h (levels graph)
    rw [root, root, hlevels, hexpression, hchain]
    simp only [site_eq, hid.type, hid.next, hid.rule]
  have hdeclaration : g'.declaration = g.declaration := by
    funext names
    rw [declaration, declaration, hdeclares]
  rw [generate, generate, hroot, hdeclaration]

/-- Graphs with the same roots and blocks that are alike have the same program. -/
theorem graphCode_congr (htop : graph'.top = graph.top)
    (hlength : graph'.nodes.length = graph.nodes.length)
    (h : ∀ id, g.Alike g (nodeAt graph id) (nodeAt graph' id)) :
    g.graphCode graph' = g.graphCode graph := by
  rw [graphCode, graphCode, htop, generate_congr rfl rfl hlength h]

/-- **The order in which the blocks are kept does not matter**, only that of the roots does. -/
theorem code_perm (g : Generator) {w w' : Workspace} (h : w'.blocks.Perm w.blocks)
    (hnodup : w'.ids.Nodup) (htop : w'.top = w.top) : g.code w' = g.code w := by
  have hnodes : w'.graph.nodes.Perm w.graph.nodes := h.map _
  have hnames : (w'.graph.nodes.map (·.1)).Nodup := by
    rw [Workspace.graph, List.map_map]
    exact hnodup
  refine graphCode_congr htop hnodes.length_eq fun id => ?_
  have hnode : w'.graph.node? id = w.graph.node? id := Table.lookup_perm hnodes hnames id
  rw [nodeAt, nodeAt, hnode]
  exact .refl g _

end Graphs

end Generator

/-! ## What the rules look at -/

/-- Two sites that show the same to the standard rules. -/
structure Site.Resembles (s s' : Site) : Prop where
  type : s'.node.type = s.node.type
  fields : s'.node.fields = s.node.fields
  filled (socket : String) : s'.isFilled socket = s.isFilled socket
  branches : s'.mutation? "elseif" = s.mutation? "elseif"
  items : s'.mutation? "items" = s.mutation? "items"
  last : s.node.type = "controls_if" → Standard.hasElse s' = Standard.hasElse s
  language : s'.language = s.language
  indent : s'.indent = s.indent

section Rules

variable {s s' : Site}

theorem agrees_standard (h : s.Resembles s') : ∀ entry ∈ Standard.rules, s.node.type = entry.1 →
    entry.2.Agrees s s' := by
  have hfilled := h.filled
  have hbranches := h.branches
  have hitems := h.items
  have hlast := h.last
  obtain ⟨htype, hfields, -, -, -, -, hlanguage, hindent⟩ := h
  obtain ⟨⟨type, fields, inputs, mutation, next⟩, l, indent, registry⟩ := s
  obtain ⟨⟨type', fields', inputs', mutation', next'⟩, l', indent', registry'⟩ := s'
  obtain rfl : type' = type := htype
  obtain rfl : fields' = fields := hfields
  obtain rfl : l' = l := hlanguage
  obtain rfl : indent' = indent := hindent
  intro entry hentry hentryType
  simp only [Standard.rules, List.mem_cons, List.not_mem_nil, or_false] at hentry
  rcases hentry with rfl | rfl | rfl | rfl | rfl | rfl | rfl | rfl | rfl | rfl | rfl | rfl | rfl |
    rfl | rfl | rfl | rfl | rfl
  · show Standard.controlsIf _ = Standard.controlsIf _
    rw [Standard.controlsIf, Standard.controlsIf, hlast hentryType, hbranches]
    rfl
  -- Neither the links nor the shape matter to the rules that the other cases do not name.
  iterate 4 rfl
  · show Standard.logicOperation _ = Standard.logicOperation _
    rw [Standard.logicOperation, Standard.logicOperation, hfilled, hfilled]
    rfl
  iterate 8 rfl
  · show Standard.textJoin _ = Standard.textJoin _
    rw [Standard.textJoin, Standard.textJoin, hitems]
  all_goals rfl

/-- Sites whose types are declared alike have the same literals for empty inputs. -/
theorem Site.value_congr (htype : s'.node.type = s.node.type)
    (hdeclared : s'.registry.get? s.node.type = s.registry.get? s.node.type) :
    s'.value = s.value := by
  funext socket outer
  rw [Site.value, Site.value, Site.socketDefault, Site.socketDefault, Registry.socketDefault?,
    Registry.socketDefault?, htype, hdeclared]

theorem Automation.arguments_congr (htype : s'.node.type = s.node.type)
    (hdeclared : s'.registry.get? s.node.type = s.registry.get? s.node.type) :
    Automation.arguments s' = Automation.arguments s := by
  funext sockets
  rw [Automation.arguments, Automation.arguments, Site.value_congr htype hdeclared]

/-- The rules for the automation blocks look at the declaration of the type of their block, and at
no other. -/
theorem agrees_automation (h : s.Resembles s')
    (hdeclared : s'.registry.get? s.node.type = s.registry.get? s.node.type) :
    ∀ entry ∈ Automation.rules, entry.2.Agrees s s' := by
  have harguments := Automation.arguments_congr h.type hdeclared
  have hvalue := Site.value_congr h.type hdeclared
  have houtput : s'.outputDefault = s.outputDefault := by
    rw [Site.outputDefault, Site.outputDefault, h.type, hdeclared]
  have hfield : s'.fieldOr = s.fieldOr := by
    funext name default
    rw [Site.fieldOr, Site.fieldOr, Site.field?, Site.field?, h.fields]
  have hbody : s'.indentedBody = s.indentedBody := by
    funext socket
    rw [Site.indentedBody, Site.indentedBody, h.indent]
  have hstub (method : String) (sockets : List String) :
      (Automation.stub method sockets).Agrees s s' := by
    rw [Automation.stub, Rule.Agrees, h.language, harguments]
  have hvalueStub (method : String) (sockets : List String) :
      (Automation.valueStub method sockets).Agrees s s' := by
    rw [Automation.valueStub, Rule.Agrees, h.language, harguments, houtput]
  intro entry hentry
  simp only [Automation.rules, List.mem_cons, List.not_mem_nil, or_false] at hentry
  rcases hentry with rfl | rfl | rfl | rfl | rfl | rfl | rfl | rfl | rfl
  iterate 4 exact hstub _ _
  · exact hvalueStub _ _
  · rw [Rule.Agrees, Automation.pressKey, Automation.pressKey, h.language, hfield]
  · rw [Rule.Agrees, Automation.inTable, Automation.inTable, h.language, hvalue, hbody]
  · exact hstub _ _
  · exact hvalueStub _ _

theorem agrees_canvas (h : s.Resembles s')
    (hdeclared : s'.registry.get? s.node.type = s.registry.get? s.node.type) :
    ∀ entry ∈ Canvas.rules, entry.2.Agrees s s' := by
  intro entry hentry
  rw [List.mem_singleton.1 hentry]
  show Canvas.circle s = Canvas.circle s'
  rw [Canvas.circle, Canvas.circle, Site.value_congr h.type hdeclared]

/-- **A rule of a vocabulary does the same at sites that resemble each other**, if the types for which
the vocabulary has rules of its own are declared alike. -/
theorem Site.Resembles.agrees (h : s.Resembles s') (v : Vocabulary) (registry : Registry)
    (hdeclared : s.node.type ∈ (addedRules v).map (·.1) →
      s'.registry.get? s.node.type = s.registry.get? s.node.type) {rule : Rule}
    (hrule : (v.generator registry).rules.get? s.node.type = some rule) : rule.Agrees s s' := by
  rcases rule_mem_or v registry hrule with hmem | hmem
  · exact agrees_standard h _ hmem rfl
  · have hsame := hdeclared (List.mem_map_of_mem hmem)
    rcases List.mem_append.1 (addedRules_subset v hmem) with hmem | hmem
    · exact agrees_automation h hsame _ hmem
    · exact agrees_canvas h hsame _ hmem

end Rules

/-! ## Shapes that say the same -/

/-- Two blocks that differ at most in how their shapes are written. -/
structure SameShape (n n' : Node) : Prop where
  type : n'.type = n.type
  fields : n'.fields = n.fields
  inputs : n'.inputs = n.inputs
  next : n'.next = n.next
  branches : n'.mutation.get? "elseif" = n.mutation.get? "elseif"
  items : n'.mutation.get? "items" = n.mutation.get? "items"
  last : n.type = "controls_if" → ∀ (l : Language) (indent : String) (registry : Registry),
    Standard.hasElse ⟨n', l, indent, registry⟩ = Standard.hasElse ⟨n, l, indent, registry⟩

theorem SameShape.resembles {n n' : Node} (h : SameShape n n') (l : Language) (indent : String)
    (registry : Registry) :
    Site.Resembles ⟨n, l, indent, registry⟩ ⟨n', l, indent, registry⟩ where
  type := h.type
  fields := h.fields
  filled socket := congrArg (fun inputs : Table String => inputs.contains socket) h.inputs
  branches := h.branches
  items := h.items
  last htype := h.last htype l indent registry
  language := rfl
  indent := rfl

/-- **A vocabulary does not tell blocks apart whose shapes say the same.** -/
theorem SameShape.alike {n n' : Node} (h : SameShape n n') (v : Vocabulary) (registry : Registry) :
    (v.generator registry).Alike (v.generator registry) n n' where
  type := h.type
  inputs := h.inputs
  next := h.next
  rule := rfl
  agrees _ hrule := (h.resembles _ _ _).agrees v registry (fun _ => rfl) hrule

end Generation
end VisualBlocks

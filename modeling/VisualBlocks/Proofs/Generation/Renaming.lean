import VisualBlocks.Proofs.Generation.Alike
import VisualBlocks.Proofs.Generation.Journal
import VisualBlocks.Proofs.Workspace.Renaming

/-!
# Walks over graphs with other names

The name of a block gets into a text at two places only: in the warning that a chain comes back to
the block, and in the comment that stands for a block without a rule.  The journal of a walk tells
whether it came to such a place (`Entry.Nameless`).  **If it did not, a graph with other names has
the same program** (`generate_rename`).

Two walks go side by side, a noted one over the graph and one over the graph with the other names.
Their passes have handed out the same names for variables and counters, and they have been to the
same blocks (`Pass.rename`).  What one step of the second walk gives is what the first one gives, as
long as the journal of the first one shows no name (`Noted.Mirrors`).
-/

set_option autoImplicit false

namespace VisualBlocks
namespace Generation

/-! ## Passes and journals -/

/-- The pass that has been to the same blocks, which now have other names. -/
def Pass.rename (ρ : String → String) (p : Pass) : Pass := { p with visited := p.visited.map ρ }

section Passes

variable (ρ : String → String) (p : Pass) (l : Language)

theorem Pass.variableName_rename (raw : String) : (p.rename ρ).variableName l raw =
    ((p.variableName l raw).1, (p.variableName l raw).2.rename ρ) := by
  have hknown : (p.rename ρ).known = p.known := rfl
  have hnames : (p.rename ρ).names = p.names := rfl
  rw [variableName, variableName, hknown, hnames]
  cases p.known.lookup raw <;> rfl

theorem Pass.freshName_rename (base : String) : (p.rename ρ).freshName l base =
    ((p.freshName l base).1, (p.freshName l base).2.rename ρ) := rfl

end Passes

/-- Does the text for the block keep quiet about its name? -/
def Entry.Nameless (e : Entry) : Prop := e.handling ≠ .cycle ∧ e.handling ≠ .placeholder

/-! ## Side by side -/

variable {ρ : String → String}

/-- What the noted step does without writing a name down, the other step does in a pass with other
names. -/
def Noted.Mirrors {α : Type} (ρ : String → String) (y : Noted Entry α) (x : Walk α) : Prop :=
  ∀ p journal a q journal', y (p, journal) = some (a, q, journal') → journal ⊆ journal' ∧
    ((∀ e ∈ journal', e.Nameless) → x (p.rename ρ) = some (a, q.rename ρ))

namespace Noted.Mirrors

variable {α β γ : Type} {y : Noted Entry α} {x : Walk α}

theorem pure (a : α) : (Pure.pure a : Noted Entry α).Mirrors ρ (Pure.pure a) := by
  rintro p journal _ _ _ ⟨⟩
  exact ⟨fun _ => id, fun _ => rfl⟩

theorem endless (x : Walk α) : (Noted.plain Walk.endless : Noted Entry α).Mirrors ρ x := nofun

theorem naming {f : Pass → String × Pass}
    (hf : ∀ p : Pass, f (p.rename ρ) = ((f p).1, (f p).2.rename ρ)) :
    (Noted.plain (Walk.naming f)).Mirrors ρ (Walk.naming f) := by
  rintro p journal _ _ _ ⟨⟩
  exact ⟨fun _ => id, fun _ => congrArg some (hf p)⟩

theorem bind {f : α → Noted Entry β} {f' : α → Walk β} (h : y.Mirrors ρ x)
    (hf : ∀ a, (f a).Mirrors ρ (f' a)) : (y >>= f).Mirrors ρ (x >>= f') := by
  intro p journal b r journal' hrun
  obtain ⟨⟨a, q, middle⟩, hy, hrest⟩ := Option.bind_eq_some_iff.1 hrun
  obtain ⟨hbefore, hx⟩ := h p journal a q middle hy
  obtain ⟨hafter, hx'⟩ := hf a q middle b r journal' hrest
  refine ⟨fun e he => hafter (hbefore he), fun hquiet => ?_⟩
  have hfirst := hx fun e he => hquiet e (hafter he)
  show (x (p.rename ρ)).bind (fun s => f' s.1 s.2) = _
  rw [hfirst]
  exact hx' hquiet

theorem map (f : α → β) (h : y.Mirrors ρ x) : (f <$> y).Mirrors ρ (f <$> x) := by
  rw [map_eq_pure_bind, map_eq_pure_bind]
  exact h.bind fun a => .pure (f a)

theorem note (e : Entry) (h : y.Mirrors ρ x) : (do Noted.note e; y : Noted Entry α).Mirrors ρ x := by
  intro p journal a q journal' hrun
  obtain ⟨hsub, hx⟩ := h p (journal ++ [e]) a q journal' hrun
  exact ⟨fun e he => hsub (List.mem_append_left _ he), hx⟩

/-- Nothing is said of a step that writes a name down. -/
theorem named {e : Entry} (he : ¬ e.Nameless) (a : α) :
    (do Noted.note e; return a : Noted Entry α).Mirrors ρ x := by
  rintro p journal _ _ _ ⟨⟩
  exact ⟨fun _ => List.mem_append_left _, fun hquiet =>
    absurd (hquiet e (List.mem_append_right _ List.mem_cons_self)) he⟩

theorem run {answer : Request → Noted Entry String} {answer' : Request → Walk String}
    (h : ∀ r, (answer r).Mirrors ρ (answer' r)) (e : Emission α) :
    (e.run answer).Mirrors ρ (e.run answer') := by
  induction e with
  | done a => exact .pure a
  | ask r resume ih => exact (h r).bind ih

theorem mapM {f : α → Noted Entry γ} {f' : β → Walk γ} {s : α → β}
    (h : ∀ a, (f a).Mirrors ρ (f' (s a))) (as : List α) :
    (as.mapM f).Mirrors ρ ((as.map s).mapM f') := by
  induction as with
  | nil => exact .pure []
  | cons a as ih =>
    rw [List.map_cons, List.mapM_cons, List.mapM_cons]
    exact (h a).bind fun _ => ih.bind fun _ => .pure _

end Noted.Mirrors

/-! ## What the rules see -/

/-- A block shows the same to the rules when the blocks that hang on it have other names. -/
theorem resembles_rename (ρ : String → String) (n : Node) (l : Language) (indent : String)
    (registry : Registry) :
    Site.Resembles ⟨n, l, indent, registry⟩ ⟨n.rename ρ, l, indent, registry⟩ := by
  have hfilled (socket : String) :
      (n.rename ρ).inputs.contains socket = n.inputs.contains socket := by
    show ((n.inputs.mapValues ρ).get? socket).isSome = (n.inputs.get? socket).isSome
    rw [Table.get?_mapValues, Option.isSome_map]
  refine ⟨rfl, rfl, hfilled, rfl, rfl, fun _ => ?_, rfl, rfl⟩
  rw [Standard.hasElse, Standard.hasElse, Site.isFilled, hfilled]
  rfl

namespace Generator

/-- Do the rules do the same with a block when the blocks that hang on it have other names? -/
def IgnoresNames (g : Generator) (ρ : String → String) : Prop :=
  ∀ (n : Node) (rule : Rule), g.rules.get? n.type = some rule →
    rule.Agrees ⟨n, g.language, g.indent, g.registry⟩
      ⟨n.rename ρ, g.language, g.indent, g.registry⟩

theorem ignoresNames (v : Vocabulary) (registry : Registry) (ρ : String → String) :
    (v.generator registry).IgnoresNames ρ := fun n _ hrule =>
  (resembles_rename ρ n _ _ _).agrees v registry (fun _ => rfl) hrule

/-! ## Walks -/

variable {g : Generator} {graph : Graph} {levels : Nat}

/-- The block under a new name is the one under the old name, renamed. -/
theorem nodeAt_rename (hρ : ρ.Injective) (graph : Graph) (id : String) :
    nodeAt (graph.rename ρ) (ρ id) = (nodeAt graph id).rename ρ := by
  have hnode : (graph.rename ρ).node? (ρ id) = (graph.node? id).map (Node.rename ρ) := by
    obtain ⟨top, nodes⟩ := graph
    rw [Graph.node?, Graph.node?, Graph.rename]
    dsimp only
    induction nodes with
    | nil => rfl
    | cons n ns ih =>
      rw [List.map_cons, List.lookup_cons, List.lookup_cons, ih, Prod.map_fst]
      by_cases hn : id = n.1
      · rw [hn, beq_self_eq_true, beq_self_eq_true]
        rfl
      · rw [beq_false_of_ne hn, beq_false_of_ne (hρ.ne hn)]
  rw [nodeAt, nodeAt, hnode]
  cases graph.node? id <;> rfl

theorem node_site_rename (hρ : ρ.Injective) (g : Generator) (graph : Graph) (id : String) :
    (g.site (graph.rename ρ) (ρ id)).node = (g.site graph id).node.rename ρ :=
  nodeAt_rename hρ graph id

theorem type_site_rename (hρ : ρ.Injective) (g : Generator) (graph : Graph) (id : String) :
    (g.site (graph.rename ρ) (ρ id)).node.type = (g.site graph id).node.type := by
  rw [node_site_rename hρ]
  rfl

/-- The rule for a block does the same under the new name. -/
theorem IgnoresNames.agrees (hg : g.IgnoresNames ρ) (hρ : ρ.Injective) {id : String} {rule : Rule}
    (hrule : g.rules.get? (g.site graph id).node.type = some rule) :
    rule.Agrees (g.site graph id) (g.site (graph.rename ρ) (ρ id)) := by
  rw [site_eq, site_eq, nodeAt_rename hρ]
  exact hg _ rule hrule

theorem mirrors_answer {expression : String → String → Noted Entry (String × Order)}
    {expression' : String → String → Walk (String × Order)} {chain : Option String → Noted Entry String}
    {chain' : Option String → Walk String}
    (hexpression : ∀ id default, (expression id default).Mirrors ρ (expression' (ρ id) default))
    (hchain : ∀ start, (chain start).Mirrors ρ (chain' (start.map ρ))) (node : Node) (r : Request) :
    (g.notedAnswer expression chain node r).Mirrors ρ
      (g.answer expression' chain' (node.rename ρ) r) := by
  have hinput (socket : String) :
      (node.rename ρ).inputs.get? socket = (node.inputs.get? socket).map ρ :=
    node.inputs.get?_mapValues ρ socket
  cases r with
  | value socket outer default =>
    rw [notedAnswer, answer, hinput]
    cases node.inputs.get? socket with
    | none => exact .pure default
    | some child => exact (hexpression child default).bind fun _ => .pure _
  | body socket =>
    rw [notedAnswer, answer, hinput]
    exact hchain _
  | variableName raw => exact .naming fun p => p.variableName_rename ρ _ raw
  | freshName base => exact .naming fun p => p.freshName_rename ρ _ base

/-- The walks with so many levels have mirrors on the graph with the other names. -/
structure MirrorsWalks (ρ : String → String) (g : Generator) (graph : Graph) (levels : Nat) :
    Prop where
  expression (id default : String) : (g.notedExpression graph levels id default).Mirrors ρ
    (g.expression (graph.rename ρ) levels (ρ id) default)
  chain (start : Option String) : (g.notedChain graph levels start).Mirrors ρ
    (g.chain (graph.rename ρ) levels (start.map ρ))

section Block

variable (hρ : ρ.Injective) (h : MirrorsWalks ρ g graph levels)

include hρ h

/-- What a rule does that does the same under the new name. -/
theorem mirrors_emit {α : Type} {emit : Site → Emission α} {id : String}
    (hagrees : emit (g.site graph id) = emit (g.site (graph.rename ρ) (ρ id))) :
    ((emit (g.site graph id)).run (g.notedAnswer (g.notedExpression graph levels)
      (g.notedChain graph levels) (g.site graph id).node)).Mirrors ρ
        ((emit (g.site (graph.rename ρ) (ρ id))).run
          (g.answer (g.expression (graph.rename ρ) levels) (g.chain (graph.rename ρ) levels)
            (g.site (graph.rename ρ) (ρ id)).node)) := by
  rw [hagrees, node_site_rename hρ]
  exact .run (mirrors_answer h.expression h.chain _) _

variable (hg : g.IgnoresNames ρ)

include hg

theorem mirrors_expression (id default : String) :
    (g.notedExpression graph (levels + 1) id default).Mirrors ρ
      (g.expression (graph.rename ρ) (levels + 1) (ρ id) default) := by
  rw [notedExpression, expression, type_site_rename hρ]
  cases hrule : g.rules.get? (g.site graph id).node.type with
  | none => exact .pure _
  | some rule =>
    cases rule with
    | statement emit => exact .pure _
    | value emit => exact mirrors_emit hρ h (hg.agrees hρ hrule)

/-- The first block of a chain.  A block without a rule is the place where its name gets out. -/
theorem mirrors_text (id : String) :
    (g.notedText (g.notedAnswer (g.notedExpression graph levels) (g.notedChain graph levels)
      (g.site graph id).node) (g.site graph id) id).Mirrors ρ
        (ownText g (graph.rename ρ) levels (ρ id)) := by
  rw [notedText, ownText, type_site_rename hρ]
  cases hrule : g.rules.get? (g.site graph id).node.type with
  | none => exact .named (fun he => he.2 rfl) _
  | some rule =>
    cases rule with
    | statement emit => exact .note _ (.map _ (mirrors_emit hρ h (hg.agrees hρ hrule)))
    | value emit => exact .note _ (.map _ (mirrors_emit hρ h (hg.agrees hρ hrule)))

/-- A step along a chain.  As the new names are different from one another, both passes have been to
the block or neither has. -/
theorem mirrors_step (id : String) :
    (g.notedStep graph (g.notedAnswer (g.notedExpression graph levels) (g.notedChain graph levels)
      (g.site graph id).node) (g.notedChain graph levels) id).Mirrors ρ
        (g.chain (graph.rename ρ) (levels + 1) (some (ρ id))) := by
  intro p journal
  by_cases hvisited : id ∈ p.visited
  · rw [notedStep_again hvisited]
    rintro _ _ _ ⟨⟩
    exact ⟨fun _ => List.mem_append_left _, fun hquiet =>
      absurd rfl (hquiet _ (List.mem_append_right _ List.mem_cons_self)).1⟩
  · have hfresh : ρ id ∉ (p.rename ρ).visited := by
      rw [Pass.rename, List.mem_map_of_injective hρ]
      exact hvisited
    have hrest := (mirrors_text hρ h hg id).bind fun code =>
      (h.chain (g.site graph id).node.next).bind fun rest => .pure (code ++ rest)
    rw [notedStep_fresh hvisited, chain_fresh g levels hfresh, node_site_rename hρ]
    exact hrest (p.visit id) journal

end Block

theorem mirrorsWalks (hg : g.IgnoresNames ρ) (hρ : ρ.Injective) (graph : Graph) (levels : Nat) :
    MirrorsWalks ρ g graph levels := by
  have hnone (levels : Nat) : (g.notedChain graph levels none).Mirrors ρ
      (g.chain (graph.rename ρ) levels none) := by
    rw [notedChain_none, chain_none]
    exact .pure ""
  induction levels with
  | zero =>
    refine ⟨fun id default => ?_, fun start => ?_⟩
    · rw [notedExpression]
      exact .endless _
    · cases start with
      | none => exact hnone 0
      | some id =>
        rw [notedChain]
        exact .endless _
  | succ levels ih =>
    refine ⟨mirrors_expression hρ ih hg, fun start => ?_⟩
    cases start with
    | none => exact hnone _
    | some id =>
      rw [notedChain_some]
      exact mirrors_step hρ ih hg id

theorem levels_rename (graph : Graph) :
    Generator.levels (graph.rename ρ) = Generator.levels graph := by
  rw [Generator.levels, Generator.levels, Graph.rename, List.length_map]

theorem mirrors_root (hg : g.IgnoresNames ρ) (hρ : ρ.Injective) (graph : Graph) (id : String) :
    (g.notedRoot graph id).Mirrors ρ (g.root (graph.rename ρ) (ρ id)) := by
  have h := mirrorsWalks hg hρ graph (Generator.levels graph)
  rw [notedRoot, root, levels_rename, node_site_rename hρ]
  dsimp only [Node.rename]
  cases g.rules.get? (g.site graph id).node.type with
  | none => exact h.chain _
  | some rule =>
    cases rule with
    | statement emit => exact h.chain _
    | value emit =>
      exact .note _ ((h.expression _ _).bind fun _ => (h.chain _).bind fun _ => .pure _)

/-- **A graph with other names has the same program**, if no name gets into it. -/
theorem generate_rename (hg : g.IgnoresNames ρ) (hρ : ρ.Injective) {roots : List String}
    {code : String} {journal : List Entry}
    (hnoted : g.notedGenerate graph roots = some (code, journal))
    (hquiet : ∀ e ∈ journal, e.Nameless) :
    g.generate (graph.rename ρ) (roots.map ρ) = some code := by
  rw [notedGenerate] at hnoted
  obtain ⟨⟨chunks, pass, written⟩, hrun, hcode⟩ := Option.bind_eq_some_iff.1 hnoted
  obtain ⟨rfl, rfl⟩ := Prod.mk.inj (Option.some.inj hcode)
  have hmirror := Noted.Mirrors.mapM (mirrors_root hg hρ graph) roots
  have hrenamed := (hmirror .start [] chunks pass _ hrun).2 hquiet
  have hstart : Pass.start.rename ρ = .start := rfl
  rw [hstart] at hrenamed
  rw [generate, StateT.run, hrenamed]
  rfl

end Generator
end Generation
end VisualBlocks

import VisualBlocks.Proofs.Generation.Trees

/-!
# Walks with a journal

The text of a program does not tell from which blocks it comes.  A noted walk goes through a graph
in the way of `Generator.generate`, and it writes down what becomes of the blocks in the places of
statements: each time that a chain comes to a block there is an `Entry` for it.

**A noted walk without its journal is the walk** (`map_fst_notedGenerate`), on every graph.  So what
the journal says is what happens when a program is generated.
-/

set_option autoImplicit false

namespace VisualBlocks
namespace Generation

/-- What becomes of a block in the place of a statement: its rule makes it a statement, its rule
makes it an expression that stands as a statement, a comment stands for it because it has no rule,
or there is a warning because a chain has been there before. -/
inductive Handling where
  | statement
  | expression
  | placeholder
  | cycle
deriving Repr, DecidableEq

/-- A block that a chain has come to, and what became of it. -/
structure Entry where
  id : String
  handling : Handling
deriving Repr, DecidableEq

/-- A step of a pass that keeps a journal with entries of some kind. -/
abbrev Noted (ε α : Type) : Type := StateT (Pass × List ε) Option α

namespace Noted

variable {ε α : Type}

/-- A step of which nothing is written down. -/
def plain (x : Walk α) : Noted ε α := fun s => (x s.1).map fun r => (r.1, r.2, s.2)

/-- Writes an entry down. -/
def note (e : ε) : Noted ε PUnit := fun s => some (⟨⟩, s.1, s.2 ++ [e])

end Noted

/-! ## Noted walks -/

namespace Generator

/-- Answers the request of the rule for a node, by way of the text of other blocks. -/
def notedAnswer {ε : Type} (g : Generator)
    (expression : String → String → Noted ε (String × Order))
    (chain : Option String → Noted ε String) (node : Node) : Request → Noted ε String
  | .value socket outer default =>
    match node.inputs.get? socket with
    | none => pure default
    | some child => do
      let (code, inner) ← expression child default
      return g.language.enclose outer inner code
  | .body socket => chain (node.inputs.get? socket)
  | .variableName raw => .plain (Walk.naming fun p => p.variableName g.language raw)
  | .freshName base => .plain (Walk.naming fun p => p.freshName g.language base)

/-- The text of the first block of a chain. -/
def notedText (g : Generator) (answer : Request → Noted Entry String) (site : Site) (id : String) :
    Noted Entry String :=
  match g.rules.get? site.node.type with
  | some (.statement emit) => do
    Noted.note ⟨id, .statement⟩
    closeLine <$> (emit site).run answer
  | some (.value emit) => do
    Noted.note ⟨id, .expression⟩
    (fun e => asStatement e.1) <$> (emit site).run answer
  | none => do
    Noted.note ⟨id, .placeholder⟩
    return g.language.unsupportedStatement site.node.type id

/-- One step along a chain: to a block that no chain has reached before, and on from there. -/
def notedStep (g : Generator) (graph : Graph) (answer : Request → Noted Entry String)
    (chain : Option String → Noted Entry String) (id : String) : Noted Entry String := do
  if (← get).1.visited.contains id then
    Noted.note ⟨id, .cycle⟩
    return g.language.cycleWarning id
  Noted.plain (modify fun p => p.visit id)
  let code ← g.notedText answer (g.site graph id) id
  return code ++ (← chain (g.site graph id).node.next)

mutual

/-- The expression of a block, and how tightly it binds. -/
def notedExpression (g : Generator) (graph : Graph) :
    Nat → String → String → Noted Entry (String × Order)
  | 0, _, _ => .plain .endless
  | levels + 1, id, default =>
    let site := g.site graph id
    match g.rules.get? site.node.type with
    | some (.value emit) =>
      (emit site).run
        (g.notedAnswer (g.notedExpression graph levels) (g.notedChain graph levels) site.node)
    | _ => pure (g.language.unsupportedValue site.node.type default, .atomic)

/-- The statements of a chain. -/
def notedChain (g : Generator) (graph : Graph) : Nat → Option String → Noted Entry String
  | _, none => pure ""
  | 0, some _ => .plain .endless
  | levels + 1, some id => do
    if (← get).1.visited.contains id then
      Noted.note ⟨id, .cycle⟩
      return g.language.cycleWarning id
    Noted.plain (modify fun p => p.visit id)
    let site := g.site graph id
    let answer :=
      g.notedAnswer (g.notedExpression graph levels) (g.notedChain graph levels) site.node
    let code ← g.notedText answer site id
    return code ++ (← g.notedChain graph levels site.node.next)

end

/-- The text of a top-level block and of what follows it. -/
def notedRoot (g : Generator) (graph : Graph) (id : String) : Noted Entry String := do
  let node := (g.site graph id).node
  match g.rules.get? node.type with
  | some (.value _) =>
    Noted.note ⟨id, .expression⟩
    let (code, _) ← g.notedExpression graph (levels graph) id "null"
    return asStatement code ++ (← g.notedChain graph (levels graph) node.next)
  | _ => g.notedChain graph (levels graph) (some id)

/-- The program of the given top-level blocks, and the journal of its generation. -/
def notedGenerate (g : Generator) (graph : Graph) (roots : List String) :
    Option (String × List Entry) := do
  let (chunks, pass, journal) ← (roots.mapM (g.notedRoot graph)).run (.start, [])
  let body := String.intercalate "\n" (chunks.filter fun c => !c.isEmpty)
  return (Text.tidy (g.declaration pass.names ++ body), journal)

end Generator

/-! ## Without the journal -/

/-- Is the noted step the given step when its journal is left out? -/
def Noted.Erases {ε α : Type} (y : Noted ε α) (x : Walk α) : Prop :=
  ∀ p journal, (y (p, journal)).map (fun r => (r.1, r.2.1)) = x p

namespace Noted.Erases

variable {ε α β : Type} {y : Noted ε α} {x : Walk α}

theorem pure (a : α) : (Pure.pure a : Noted ε α).Erases (Pure.pure a) := fun _ _ => rfl

theorem plain (x : Walk α) : (Noted.plain x : Noted ε α).Erases x := by
  intro p journal
  rw [Noted.plain, Option.map_map]
  exact Option.map_id'

theorem bind {f : α → Noted ε β} {f' : α → Walk β} (h : y.Erases x) (hf : ∀ a, (f a).Erases (f' a)) :
    (y >>= f).Erases (x >>= f') := by
  intro p journal
  have hy : (y >>= f) (p, journal) = (y (p, journal)).bind fun s => f s.1 s.2 := rfl
  have hx : (x >>= f') p = (x p).bind fun s => f' s.1 s.2 := rfl
  rw [hy, hx, ← h p journal]
  cases y (p, journal) with
  | none => rfl
  | some s => exact hf s.1 s.2.1 s.2.2

theorem map (f : α → β) (h : y.Erases x) : (f <$> y).Erases (f <$> x) := by
  rw [map_eq_pure_bind, map_eq_pure_bind]
  exact h.bind fun a => .pure (f a)

/-- An entry changes nothing but the journal. -/
theorem note (e : ε) (h : y.Erases x) : (do Noted.note e; y : Noted ε α).Erases x :=
  fun p journal => h p (journal ++ [e])

theorem run {answer : Request → Noted ε String} {answer' : Request → Walk String}
    (h : ∀ r, (answer r).Erases (answer' r)) (e : Emission α) :
    (e.run answer).Erases (e.run answer') := by
  induction e with
  | done a => exact .pure a
  | ask r resume ih => exact (h r).bind ih

theorem mapM {f : α → Noted ε β} {f' : α → Walk β} (h : ∀ a, (f a).Erases (f' a)) (as : List α) :
    (as.mapM f).Erases (as.mapM f') := by
  induction as with
  | nil => exact .pure []
  | cons a as ih =>
    rw [List.mapM_cons, List.mapM_cons]
    exact (h a).bind fun _ => ih.bind fun _ => .pure _

end Noted.Erases

namespace Generator

variable {g : Generator} {graph : Graph}

theorem erases_answer {ε : Type} {expression : String → String → Noted ε (String × Order)}
    {expression' : String → String → Walk (String × Order)} {chain : Option String → Noted ε String}
    {chain' : Option String → Walk String}
    (hexpression : ∀ id default, (expression id default).Erases (expression' id default))
    (hchain : ∀ start, (chain start).Erases (chain' start)) (node : Node) (r : Request) :
    (g.notedAnswer expression chain node r).Erases (g.answer expression' chain' node r) := by
  cases r with
  | value socket outer default =>
    rw [notedAnswer, answer]
    cases node.inputs.get? socket with
    | none => exact .pure default
    | some child => exact (hexpression child default).bind fun _ => .pure _
  | body socket => exact hchain _
  | variableName raw => exact .plain _
  | freshName base => exact .plain _

section Levels

variable {ε : Type} {noted : Nat → String → String → Noted ε (String × Order)}
  {notedChain : Nat → Option String → Noted ε String}

/-- The walks with so many levels are the noted ones without what is noted. -/
structure ErasesWalks (g : Generator) (graph : Graph)
    (noted : Nat → String → String → Noted ε (String × Order))
    (notedChain : Nat → Option String → Noted ε String) (levels : Nat) : Prop where
  expression (id default : String) :
    (noted levels id default).Erases (g.expression graph levels id default)
  chain (start : Option String) : (notedChain levels start).Erases (g.chain graph levels start)

variable {levels : Nat}

theorem ErasesWalks.answer (h : ErasesWalks g graph noted notedChain levels) (node : Node)
    (r : Request) : (g.notedAnswer (noted levels) (notedChain levels) node r).Erases
      (g.answer (g.expression graph levels) (g.chain graph levels) node r) :=
  erases_answer h.expression h.chain node r

/-- A value notes what its inputs do, if it notes nothing of itself. -/
theorem ErasesWalks.value (h : ErasesWalks g graph noted notedChain levels) (id default : String) :
    (match g.rules.get? (g.site graph id).node.type with
      | some (.value emit) => (emit (g.site graph id)).run
          (g.notedAnswer (noted levels) (notedChain levels) (g.site graph id).node)
      | _ => pure (g.language.unsupportedValue (g.site graph id).node.type default, .atomic) :
        Noted ε (String × Order)).Erases (g.expression graph (levels + 1) id default) := by
  rw [Generator.expression]
  cases g.rules.get? (g.site graph id).node.type with
  | none => exact .pure _
  | some rule =>
    cases rule with
    | statement emit => exact .pure _
    | value emit => exact .run (h.answer _) _

/-- A noted step is a step along a chain, if it goes on with the text of a block and what follows it
when the block is new, and otherwise gives a warning. -/
theorem erases_of_step {y text : Noted ε String} {chain : Option String → Noted ε String}
    {id : String}
    (hagain : ∀ p events, id ∈ p.visited →
      ∃ events', y (p, events) = some (g.language.cycleWarning id, p, events'))
    (hfresh : ∀ p events, id ∉ p.visited → y (p, events) = (do
      let code ← text
      return code ++ (← chain (g.site graph id).node.next) : Noted ε String) (p.visit id, events))
    (htext : text.Erases (ownText g graph levels id))
    (hchain : ∀ start, (chain start).Erases (g.chain graph levels start)) :
    y.Erases (g.chain graph (levels + 1) (some id)) := by
  intro p events
  by_cases hvisited : id ∈ p.visited
  · obtain ⟨events', hy⟩ := hagain p events hvisited
    rw [hy, chain_again g levels hvisited]
    rfl
  · have hrest := htext.bind fun code =>
      (hchain (g.site graph id).node.next).bind fun rest => .pure (code ++ rest)
    rw [hfresh p events hvisited, chain_fresh g levels hvisited]
    exact hrest (p.visit id) events

/-- Noted walks are walks without what is noted, if one level more keeps it so. -/
theorem erasesWalks_of_succ
    (hzero : ∀ id default, noted 0 id default = .plain .endless)
    (hzeroChain : ∀ id, notedChain 0 (some id) = .plain .endless)
    (hnone : ∀ levels, notedChain levels none = pure "")
    (hsucc : ∀ levels, ErasesWalks g graph noted notedChain levels → ∀ id default,
      (noted (levels + 1) id default).Erases (g.expression graph (levels + 1) id default))
    (hsuccChain : ∀ levels, ErasesWalks g graph noted notedChain levels → ∀ id,
      (notedChain (levels + 1) (some id)).Erases (g.chain graph (levels + 1) (some id)))
    (levels : Nat) : ErasesWalks g graph noted notedChain levels := by
  have hend (levels : Nat) : (notedChain levels none).Erases (g.chain graph levels none) := by
    rw [hnone, chain_none]
    exact .pure ""
  induction levels with
  | zero =>
    refine ⟨fun id default => ?_, fun start => ?_⟩
    · rw [hzero, expression]
      exact .plain _
    · cases start with
      | none => exact hend 0
      | some id =>
        rw [hzeroChain, chain]
        exact .plain _
  | succ levels ih =>
    refine ⟨hsucc levels ih, fun start => ?_⟩
    cases start with
    | none => exact hend _
    | some id => exact hsuccChain levels ih id

/-- A top-level block notes what its parts do, if it notes nothing of itself. -/
theorem ErasesWalks.root (h : ErasesWalks g graph noted notedChain (Generator.levels graph))
    (id : String) :
    (match g.rules.get? (g.site graph id).node.type with
      | some (.value _) => do
        let (code, _) ← noted (Generator.levels graph) id "null"
        return asStatement code ++
          (← notedChain (Generator.levels graph) (g.site graph id).node.next)
      | _ => notedChain (Generator.levels graph) (some id) : Noted ε String).Erases
      (g.root graph id) := by
  rw [Generator.root]
  cases g.rules.get? (g.site graph id).node.type with
  | none => exact h.chain _
  | some rule =>
    cases rule with
    | statement emit => exact h.chain _
    | value emit => exact (h.expression _ _).bind fun _ => (h.chain _).bind fun _ => .pure _

/-- Noted walks from the top-level blocks give the same program, if each is a walk without what is
noted. -/
theorem map_fst_program {noted : String → Noted ε String}
    (h : ∀ id, (noted id).Erases (g.root graph id)) (roots : List String) :
    (do
      let (chunks, pass, events) ← (roots.mapM noted).run (.start, [])
      let body := String.intercalate "\n" (chunks.filter fun c => !c.isEmpty)
      return (Text.tidy (g.declaration pass.names ++ body), events) :
        Option (String × List ε)).map Prod.fst = g.generate graph roots := by
  have hroots := Noted.Erases.mapM h roots .start []
  rw [generate, StateT.run, StateT.run, ← hroots]
  cases (roots.mapM noted) (Pass.start, []) <;> rfl

end Levels

variable {levels : Nat}

theorem erases_text {answer : Request → Noted Entry String} {id : String}
    (hanswer : ∀ r, (answer r).Erases (g.answer (g.expression graph levels) (g.chain graph levels)
      (g.site graph id).node r)) :
    (g.notedText answer (g.site graph id) id).Erases (ownText g graph levels id) := by
  rw [notedText, ownText]
  cases g.rules.get? (g.site graph id).node.type with
  | none => exact .note _ (.pure _)
  | some rule =>
    cases rule with
    | statement emit => exact .note _ (.map _ (.run hanswer _))
    | value emit => exact .note _ (.map _ (.run hanswer _))

theorem notedChain_none (levels : Nat) : g.notedChain graph levels none = pure "" := by
  rw [notedChain.eq_def]

section Step

variable {answer : Request → Noted Entry String} {chain : Option String → Noted Entry String}
  {id : String} {p : Pass}

/-- A step to a block that no chain has reached before. -/
theorem notedStep_fresh (hfresh : id ∉ p.visited) (journal : List Entry) :
    g.notedStep graph answer chain id (p, journal) =
      (do
        let code ← g.notedText answer (g.site graph id) id
        return code ++ (← chain (g.site graph id).node.next) : Noted Entry String)
        (p.visit id, journal) := by
  rw [notedStep, Walk.get_bind, if_neg (mt List.contains_iff_mem.1 hfresh)]
  rfl

/-- A step that comes back to a block. -/
theorem notedStep_again (hvisited : id ∈ p.visited) (journal : List Entry) :
    g.notedStep graph answer chain id (p, journal) =
      some (g.language.cycleWarning id, p, journal ++ [⟨id, .cycle⟩]) := by
  rw [notedStep, Walk.get_bind, if_pos (List.contains_iff_mem.2 hvisited)]
  rfl

theorem erases_step
    (hanswer : ∀ r, (answer r).Erases (g.answer (g.expression graph levels) (g.chain graph levels)
      (g.site graph id).node r))
    (hchain : ∀ start, (chain start).Erases (g.chain graph levels start)) :
    (g.notedStep graph answer chain id).Erases (g.chain graph (levels + 1) (some id)) :=
  erases_of_step (fun _ journal hvisited => ⟨_, notedStep_again hvisited journal⟩)
    (fun _ journal hfresh => notedStep_fresh hfresh journal) (erases_text hanswer) hchain

end Step

/-- A chain begins with a step. -/
theorem notedChain_some (levels : Nat) (id : String) :
    g.notedChain graph (levels + 1) (some id) =
      g.notedStep graph (g.notedAnswer (g.notedExpression graph levels) (g.notedChain graph levels)
        (g.site graph id).node) (g.notedChain graph levels) id := by
  rw [notedChain]
  rfl

variable (g graph)

theorem erasesWalks (levels : Nat) :
    ErasesWalks g graph (g.notedExpression graph) (g.notedChain graph) levels := by
  refine erasesWalks_of_succ (fun id default => ?_) (fun id => ?_) notedChain_none
    (fun levels h id default => ?_) (fun levels h id => ?_) levels
  · rw [notedExpression]
  · rw [notedChain]
  · rw [notedExpression]
    exact h.value id default
  · rw [notedChain_some]
    exact erases_step (h.answer _) h.chain

theorem erases_root (id : String) : (g.notedRoot graph id).Erases (g.root graph id) := by
  have h := erasesWalks g graph (Generator.levels graph)
  rw [notedRoot, root]
  cases g.rules.get? (g.site graph id).node.type with
  | none => exact h.chain _
  | some rule =>
    cases rule with
    | statement emit => exact h.chain _
    | value emit =>
      exact .note _ ((h.expression _ _).bind fun _ => (h.chain _).bind fun _ => .pure _)

/-- **A noted walk without its journal is the walk**, so it gives the same program. -/
theorem map_fst_notedGenerate (roots : List String) :
    (g.notedGenerate graph roots).map Prod.fst = g.generate graph roots :=
  map_fst_program (erases_root g graph) roots

end Generator
end Generation
end VisualBlocks

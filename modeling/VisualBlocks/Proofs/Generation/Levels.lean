import Mathlib.Logic.Relation
import VisualBlocks.Proofs.Generation.Journal

/-!
# How deep a walk goes

The walk over a graph recurses through rules, through chains and through values, and the graph may
be any one: chains may run in circles, blocks may be shared, and links may lead nowhere.  **If no
value is part of itself, generation ends** (`exists_code`), and it ends with the same program
whatever the number of levels is, if there are enough of them (`generateWithin_of_le`).  So the bound
on the levels decides nothing.

Two things make the walk end.  A chain goes on only at a block that no chain has reached before, and
the blocks of the graph that are still ahead become fewer with it (`ahead_visit_lt`).  Between two
such steps a value takes in other values, each of which has been passed by none of the others
(`Passed`).  What a walk needs goes by both: so many levels for each block ahead as there are blocks,
and for the values one more for each block that has not been passed.
-/

set_option autoImplicit false

namespace VisualBlocks

/-- The identifiers of the nodes. -/
def Graph.ids (graph : Graph) : List String := graph.nodes.map (·.1)

namespace Generation

variable {g : Generator} {graph : Graph} {p q : Pass} {id : String} {levels : Nat}

/-! ## Values that take in values -/

namespace Generator

/-- Block `a` makes a value and has block `b` in an input. -/
def Takes (g : Generator) (graph : Graph) (a b : String) : Prop :=
  (∃ emit, g.rules.get? (g.site graph a).node.type = some (.value emit)) ∧
    b ∈ (g.site graph a).node.inputs.values

/-- No block that makes a value is part of its own value. -/
def Grounded (g : Generator) (graph : Graph) : Prop :=
  ∀ id, ¬ Relation.TransGen (g.Takes graph) id id

theorem site_of_not_mem (g : Generator) (h : id ∉ graph.ids) :
    (g.site graph id).node = .bare "" := by
  have hnone : graph.node? id = none := by
    rw [Option.eq_none_iff_forall_ne_some]
    exact fun node hnode => h (List.mem_map_of_mem (f := Prod.fst) (Table.mem_of_lookup hnode))
  rw [site, hnone]
  rfl

end Generator

/-- Blocks whose values are being made, each of them for one of the others, and all of them for a
block. -/
structure Passed (g : Generator) (graph : Graph) (passed : List String) (id : String) : Prop where
  nodup : passed.Nodup
  present : passed ⊆ graph.ids
  takes : ∀ x ∈ passed, Relation.TransGen (g.Takes graph) x id

theorem Passed.nil (g : Generator) (graph : Graph) (id : String) : Passed g graph [] id :=
  ⟨.nil, List.nil_subset _, nofun⟩

theorem Passed.length_le {passed : List String} (h : Passed g graph passed id) :
    passed.length ≤ graph.nodes.length := by
  have hle := h.nodup.length_le_of_subset h.present
  rwa [Graph.ids, List.length_map] at hle

/-- A value is made for a block that takes it in. -/
theorem Passed.cons {passed : List String} {child : String} (h : Passed g graph passed id)
    (hgrounded : g.Grounded graph) (hid : id ∈ graph.ids) (htakes : g.Takes graph id child) :
    Passed g graph (id :: passed) child where
  nodup := List.nodup_cons.2 ⟨fun hmem => hgrounded id (h.takes id hmem), h.nodup⟩
  present := List.cons_subset.2 ⟨hid, h.present⟩
  takes x hx := by
    rcases List.mem_cons.1 hx with rfl | hx
    · exact .single htakes
    · exact (h.takes x hx).tail htakes

/-! ## Blocks ahead -/

/-- A later state of a pass: what chains have reached they have still reached. -/
def Pass.Onward (p q : Pass) : Prop := p.visited ⊆ q.visited

namespace Pass.Onward

theorem refl (p : Pass) : p.Onward p := List.Subset.refl _

theorem of_eq (h : q.visited = p.visited) : p.Onward q := by
  rw [Onward, h]
  exact List.Subset.refl _

theorem trans {r : Pass} (hpq : p.Onward q) (hqr : q.Onward r) : p.Onward r :=
  List.Subset.trans hpq hqr

theorem visit (p : Pass) (id : String) : p.Onward (p.visit id) :=
  List.subset_cons_of_subset id (List.Subset.refl _)

end Pass.Onward

/-- How many nodes of the graph no chain has reached so far. -/
def ahead (graph : Graph) (p : Pass) : Nat :=
  (graph.ids.filter fun id => !p.visited.contains id).length

theorem ahead_le (graph : Graph) (p : Pass) : ahead graph p ≤ graph.nodes.length := by
  have hle := List.length_filter_le (fun id => !p.visited.contains id) graph.ids
  rwa [Graph.ids, List.length_map] at hle

theorem Pass.Onward.filter_sublist (graph : Graph) (h : p.Onward q) :
    (graph.ids.filter fun id => !q.visited.contains id).Sublist
      (graph.ids.filter fun id => !p.visited.contains id) := by
  refine List.monotone_filter_right graph.ids fun id hid => ?_
  simp only [Bool.not_eq_true', List.contains_eq_mem, decide_eq_false_iff_not] at hid ⊢
  exact fun hmem => hid (h hmem)

theorem ahead_anti (graph : Graph) (h : p.Onward q) : ahead graph q ≤ ahead graph p :=
  (h.filter_sublist graph).length_le

/-- **A chain that reaches a block of the graph has fewer blocks ahead.** -/
theorem ahead_visit_lt (hid : id ∈ graph.ids) (hfresh : id ∉ p.visited) :
    ahead graph (p.visit id) < ahead graph p := by
  have hsub := (Pass.Onward.visit p id).filter_sublist graph
  refine Nat.lt_of_le_of_ne hsub.length_le fun hlength => ?_
  have hmem : id ∈ graph.ids.filter fun id => !p.visited.contains id := by
    simpa using ⟨hid, hfresh⟩
  rw [← hsub.eq_of_length hlength] at hmem
  simp [Pass.visit] at hmem

/-! ## Levels that are enough -/

/-- The levels that a chain needs. -/
def chainLevels (graph : Graph) (p : Pass) : Nat := (graph.nodes.length + 2) * ahead graph p + 1

/-- The levels that a value needs when so many blocks have been passed. -/
def valueLevels (graph : Graph) (passed : Nat) (p : Pass) : Nat :=
  graph.nodes.length - passed + chainLevels graph p + 1

theorem chainLevels_anti (graph : Graph) (h : p.Onward q) :
    chainLevels graph q ≤ chainLevels graph p :=
  Nat.succ_le_succ (Nat.mul_le_mul_left _ (ahead_anti graph h))

theorem valueLevels_anti (graph : Graph) (passed : Nat) (h : p.Onward q) :
    valueLevels graph passed q ≤ valueLevels graph passed p :=
  Nat.succ_le_succ (Nat.add_le_add_left (chainLevels_anti graph h) _)

/-- A value inside a chain begins anew: it has been given a level for each block. -/
theorem valueLevels_visit (hid : id ∈ graph.ids) (hfresh : id ∉ p.visited) :
    valueLevels graph 0 (p.visit id) < chainLevels graph p := by
  have hle := Nat.mul_le_mul_left (graph.nodes.length + 2) (ahead_visit_lt hid hfresh)
  rw [Nat.mul_succ] at hle
  rw [valueLevels, chainLevels, chainLevels]
  omega

theorem valueLevels_le_levels (graph : Graph) (p : Pass) :
    valueLevels graph 0 p ≤ Generator.levels graph := by
  have hle := Nat.mul_le_mul_left (graph.nodes.length + 2) (ahead_le graph p)
  have hsquare : Generator.levels graph =
      (graph.nodes.length + 2) * graph.nodes.length + (graph.nodes.length + 2) * 2 := by
    rw [Generator.levels, Nat.pow_eq, Nat.pow_two, ← Nat.mul_add]
  rw [valueLevels, chainLevels]
  omega

/-! ## Walks that end -/

/-- The step comes to an end, and what chains have reached before they have still reached. -/
abbrev Walk.Ends {α : Type} (x : Walk α) (p : Pass) : Prop :=
  x.Ensures p fun _ q => p.Onward q

/-- A rule ends if its requests are answered, then and later. -/
theorem Walk.Ends.run {α : Type} {answer : Request → Walk String} {p : Pass}
    (h : ∀ r q, p.Onward q → (answer r).Ends q) (e : Emission α) :
    (e.run answer).Ends p := by
  induction e generalizing p with
  | done a => exact .pure (.refl _)
  | ask r resume ih =>
    refine (h r p (List.Subset.refl _)).bind fun a q hpq => ?_
    exact (ih a fun r s hqs => h r s (hpq.trans hqs)).mono fun b s hqs => hpq.trans hqs

/-- What ends with so many levels. -/
structure EndingWalks (g : Generator) (graph : Graph) (levels : Nat) : Prop where
  expression {passed : List String} {id : String} (h : Passed g graph passed id) {p : Pass}
    (hlevels : valueLevels graph passed.length p ≤ levels) (default : String) :
    (g.expression graph levels id default).Ends p
  chain (id : String) {p : Pass} (hlevels : chainLevels graph p ≤ levels) :
    (g.chain graph levels (some id)).Ends p

theorem chain_ends (h : EndingWalks g graph levels) {start : Option String} {p : Pass}
    (hlevels : ∀ id, start = some id → chainLevels graph p ≤ levels) :
    (g.chain graph levels start).Ends p := by
  cases start with
  | none =>
    rw [chain_none]
    exact .pure (.refl _)
  | some id => exact h.chain id (hlevels id rfl)

/-- The requests of a rule are answered, if there are levels enough for what is in the inputs. -/
theorem answer_ends (h : EndingWalks g graph levels) {node : Node} {p : Pass}
    (hroom : ∀ child ∈ node.inputs.values, ∃ passed, Passed g graph passed child ∧
      valueLevels graph passed.length p ≤ levels) (r : Request) (q : Pass)
    (hpq : p.Onward q) :
    (g.answer (g.expression graph levels) (g.chain graph levels) node r).Ends q := by
  have hmem {socket child : String} (hchild : node.inputs.get? socket = some child) :
      child ∈ node.inputs.values := List.mem_map_of_mem (Table.mem_of_lookup hchild)
  cases r with
  | value socket outer default =>
    rw [Generator.answer]
    cases hchild : node.inputs.get? socket with
    | none => exact .pure (.refl _)
    | some child =>
      obtain ⟨passed, hpassed, hlevels⟩ := hroom child (hmem hchild)
      have hvalue := h.expression hpassed ((valueLevels_anti graph _ hpq).trans hlevels) default
      exact hvalue.bind fun _ _ hqr => .pure hqr
  | body socket =>
    rw [Generator.answer]
    refine chain_ends h fun child hchild => ?_
    obtain ⟨passed, -, hlevels⟩ := hroom child (hmem hchild)
    have hle := (valueLevels_anti graph passed.length hpq).trans hlevels
    rw [valueLevels] at hle
    omega
  | variableName raw => exact .naming (.of_eq (q.variableName_visited g.language raw))
  | freshName base => exact .naming (.refl _)

/-- One level of a value: it hands on to its inputs that it has been passed. -/
theorem expression_ends (hgrounded : g.Grounded graph) (h : EndingWalks g graph levels)
    {passed : List String} (hpassed : Passed g graph passed id)
    (hlevels : valueLevels graph passed.length p ≤ levels + 1) (default : String) :
    (g.expression graph (levels + 1) id default).Ends p := by
  rw [Generator.expression]
  split
  · next emit hrule =>
    refine Walk.Ends.run (answer_ends h fun child hchild => ?_) _
    by_cases hid : id ∈ graph.ids
    · have hcons := hpassed.cons hgrounded hid ⟨⟨emit, hrule⟩, hchild⟩
      have hlength := hcons.length_le
      refine ⟨id :: passed, hcons, ?_⟩
      rw [valueLevels] at hlevels ⊢
      rw [List.length_cons] at hlength ⊢
      omega
    · rw [g.site_of_not_mem hid] at hchild
      cases hchild
  · exact .pure (.refl _)

/-- One level of a chain: behind a block that has been reached there is less ahead. -/
theorem chain_ends_succ (h : EndingWalks g graph levels)
    (hlevels : chainLevels graph p ≤ levels + 1) :
    (g.chain graph (levels + 1) (some id)).Ends p := by
  by_cases hvisited : id ∈ p.visited
  · exact ⟨_, p, chain_again g levels hvisited, .refl p⟩
  · have hroom (hid : id ∈ graph.ids) : valueLevels graph 0 (p.visit id) ≤ levels :=
      Nat.le_of_lt_succ ((valueLevels_visit hid hvisited).trans_le hlevels)
    have hinputs : ∀ child ∈ (g.site graph id).node.inputs.values, ∃ passed,
        Passed g graph passed child ∧ valueLevels graph passed.length (p.visit id) ≤ levels := by
      intro child hchild
      by_cases hid : id ∈ graph.ids
      · exact ⟨[], .nil g graph child, hroom hid⟩
      · rw [g.site_of_not_mem hid] at hchild
        cases hchild
    have hanswer := answer_ends h hinputs
    have hown : (ownText g graph levels id).Ends (p.visit id) := by
      rw [ownText]
      cases g.rules.get? (g.site graph id).node.type with
      | none => exact .pure (.refl _)
      | some rule =>
        cases rule with
        | statement emit => exact .map (Walk.Ends.run hanswer _)
        | value emit => exact .map (Walk.Ends.run hanswer _)
    have hnext (q : Pass) (hpq : (p.visit id).Onward q) :
        (g.chain graph levels (g.site graph id).node.next).Ends q := by
      refine chain_ends h fun next hnext => ?_
      by_cases hid : id ∈ graph.ids
      · have hle := (valueLevels_anti graph 0 hpq).trans (hroom hid)
        rw [valueLevels] at hle
        omega
      · rw [g.site_of_not_mem hid] at hnext
        cases hnext
    have hall : (do
        let code ← ownText g graph levels id
        return code ++ (← g.chain graph levels (g.site graph id).node.next) :
          Walk String).Ends (p.visit id) :=
      hown.bind fun code q hpq => (hnext q hpq).bind fun rest r hqr => .pure (hpq.trans hqr)
    obtain ⟨code, q, hrun, hpq⟩ := hall
    exact ⟨code, q, (chain_fresh g levels hvisited).trans hrun,
      (Pass.Onward.visit p id).trans hpq⟩

/-- **Walks end where no value is part of itself.** -/
theorem endingWalks (hgrounded : g.Grounded graph) (levels : Nat) : EndingWalks g graph levels := by
  induction levels with
  | zero =>
    refine ⟨fun _ _ hlevels => ?_, fun _ _ hlevels => ?_⟩
    · rw [valueLevels] at hlevels
      omega
    · rw [chainLevels] at hlevels
      omega
  | succ levels ih =>
    exact ⟨fun hpassed _ hlevels default => expression_ends hgrounded ih hpassed hlevels default,
      fun _ _ hlevels => chain_ends_succ ih hlevels⟩

/-! ## More levels -/

/-- Where the one step comes to an end, the other one does so in the same way. -/
def Walk.Extends {α : Type} (y x : Walk α) : Prop := ∀ p r, x p = some r → y p = some r

namespace Walk.Extends

variable {α β : Type} {x y : Walk α}

theorem refl (x : Walk α) : x.Extends x := fun _ _ h => h

theorem bind {f f' : α → Walk β} (h : y.Extends x) (hf : ∀ a, (f' a).Extends (f a)) :
    (y >>= f').Extends (x >>= f) := by
  intro p r hr
  obtain ⟨⟨a, q⟩, hx, hr⟩ := Option.bind_eq_some_iff.1 hr
  exact Option.bind_eq_some_iff.2 ⟨(a, q), h p _ hx, hf a q r hr⟩

theorem map (f : α → β) (h : y.Extends x) : (f <$> y).Extends (f <$> x) := by
  rw [map_eq_pure_bind, map_eq_pure_bind]
  exact h.bind fun a => refl _

theorem run {answer answer' : Request → Walk String} (h : ∀ r, (answer' r).Extends (answer r))
    (e : Emission α) : (e.run answer').Extends (e.run answer) := by
  induction e with
  | done a => exact refl _
  | ask r resume ih => exact (h r).bind ih

theorem mapM {f f' : α → Walk β} (h : ∀ a, (f' a).Extends (f a)) (as : List α) :
    (as.mapM f').Extends (as.mapM f) := by
  induction as with
  | nil => exact refl _
  | cons a as ih =>
    rw [List.mapM_cons, List.mapM_cons]
    exact (h a).bind fun _ => ih.bind fun _ => refl _

end Walk.Extends

/-- One more level changes nothing where so many are enough. -/
structure Deepens (g : Generator) (graph : Graph) (levels : Nat) : Prop where
  expression (id default : String) :
    (g.expression graph (levels + 1) id default).Extends (g.expression graph levels id default)
  chain (start : Option String) :
    (g.chain graph (levels + 1) start).Extends (g.chain graph levels start)

theorem Deepens.answer (h : Deepens g graph levels) (node : Node) (r : Request) :
    (g.answer (g.expression graph (levels + 1)) (g.chain graph (levels + 1)) node r).Extends
      (g.answer (g.expression graph levels) (g.chain graph levels) node r) := by
  cases r with
  | value socket outer default =>
    rw [Generator.answer, Generator.answer]
    cases node.inputs.get? socket with
    | none => exact .refl _
    | some child => exact (h.expression child default).bind fun _ => .refl _
  | body socket => exact h.chain _
  | variableName raw => exact .refl _
  | freshName base => exact .refl _

theorem Deepens.ownText (h : Deepens g graph levels) (id : String) :
    (ownText g graph (levels + 1) id).Extends (ownText g graph levels id) := by
  rw [Generation.ownText, Generation.ownText]
  cases g.rules.get? (g.site graph id).node.type with
  | none => exact .refl _
  | some rule =>
    cases rule with
    | statement emit => exact .map _ (.run (h.answer _) _)
    | value emit => exact .map _ (.run (h.answer _) _)

variable (g graph)

/-- **A walk that ends goes the same way with more levels.** -/
theorem deepens (levels : Nat) : Deepens g graph levels := by
  have hnone (levels : Nat) :
      (g.chain graph (levels + 1) none).Extends (g.chain graph levels none) := by
    rw [chain_none, chain_none]
    exact .refl _
  induction levels with
  | zero =>
    refine ⟨fun id default p r hr => ?_, fun start => ?_⟩
    · rw [Generator.expression] at hr
      cases hr
    · cases start with
      | none => exact hnone 0
      | some id =>
        intro p r hr
        rw [Generator.chain] at hr
        cases hr
  | succ levels ih =>
    refine ⟨fun id default => ?_, fun start => ?_⟩
    · rw [Generator.expression, Generator.expression]
      cases g.rules.get? (g.site graph id).node.type with
      | none => exact .refl _
      | some rule =>
        cases rule with
        | statement emit => exact .refl _
        | value emit => exact .run (ih.answer _) _
    · cases start with
      | none => exact hnone _
      | some id =>
        intro p r hr
        by_cases hvisited : id ∈ p.visited
        · rw [chain_again g _ hvisited] at hr ⊢
          exact hr
        · rw [chain_fresh g _ hvisited] at hr ⊢
          exact (ih.ownText id).bind (fun _ => (ih.chain _).bind fun _ => .refl _) _ _ hr

namespace Generator

/-- The text of a top-level block and of what follows it, with so many levels of recursion. -/
def rootWithin (g : Generator) (graph : Graph) (levels : Nat) (id : String) : Walk String := do
  let node := (g.site graph id).node
  match g.rules.get? node.type with
  | some (.value _) =>
    let (code, _) ← g.expression graph levels id "null"
    return asStatement code ++ (← g.chain graph levels node.next)
  | _ => g.chain graph levels (some id)

/-- The program of the given top-level blocks, with so many levels of recursion. -/
def generateWithin (g : Generator) (graph : Graph) (levels : Nat) (roots : List String) :
    Option String := do
  let (chunks, pass) ← (roots.mapM (g.rootWithin graph levels)).run .start
  let body := String.intercalate "\n" (chunks.filter fun c => !c.isEmpty)
  return Text.tidy (g.declaration pass.names ++ body)

theorem generate_eq_generateWithin (roots : List String) :
    g.generate graph roots = g.generateWithin graph (Generator.levels graph) roots := rfl

theorem rootWithin_extends (levels : Nat) (id : String) :
    (g.rootWithin graph (levels + 1) id).Extends (g.rootWithin graph levels id) := by
  have h := deepens g graph levels
  rw [rootWithin, rootWithin]
  cases g.rules.get? (g.site graph id).node.type with
  | none => exact h.chain _
  | some rule =>
    cases rule with
    | statement emit => exact h.chain _
    | value emit => exact (h.expression _ _).bind fun _ => (h.chain _).bind fun _ => .refl _

/-- **More levels give the same program**, where there is one. -/
theorem generateWithin_of_le {roots : List String} {code : String} {levels more : Nat}
    (hle : levels ≤ more) (h : g.generateWithin graph levels roots = some code) :
    g.generateWithin graph more roots = some code := by
  induction more, hle using Nat.le_induction with
  | base => exact h
  | succ more _ ih =>
    obtain ⟨⟨chunks, pass⟩, hrun, hcode⟩ := Option.bind_eq_some_iff.1 ih
    exact Option.bind_eq_some_iff.2
      ⟨(chunks, pass), Walk.Extends.mapM (g.rootWithin_extends graph more) roots _ _ hrun, hcode⟩

variable {g graph}

theorem root_ends (hgrounded : g.Grounded graph) (id : String) (p : Pass) :
    (g.root graph id).Ends p := by
  have h := endingWalks hgrounded (Generator.levels graph)
  have hvalue (p : Pass) := valueLevels_le_levels graph p
  have hchain (start : Option String) (p : Pass) :
      (g.chain graph (Generator.levels graph) start).Ends p := by
    refine chain_ends h fun _ _ => ?_
    have hle := hvalue p
    rw [valueLevels] at hle
    omega
  rw [root]
  split
  · refine (h.expression (.nil g graph id) (hvalue p) "null").bind fun r q hpq => ?_
    exact (hchain _ q).bind fun _ _ hqr => .pure (hpq.trans hqr)
  · exact hchain _ p

/-- **Generation ends where no value is part of itself.** -/
theorem exists_code (hgrounded : g.Grounded graph) (roots : List String) :
    ∃ code, g.generate graph roots = some code := by
  have hroots (p : Pass) : (roots.mapM (g.root graph)).Ends p := by
    induction roots generalizing p with
    | nil => exact .pure (.refl p)
    | cons id roots ih =>
      rw [List.mapM_cons]
      exact (root_ends hgrounded id p).bind fun _ q hpq => (ih q).bind fun _ _ hqr =>
        .pure (hpq.trans hqr)
  obtain ⟨chunks, pass, hrun, -⟩ := hroots .start
  rw [generate, StateT.run, hrun]
  exact ⟨_, rfl⟩

end Generator
end Generation
end VisualBlocks

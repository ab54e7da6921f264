import VisualBlocks.Proofs.Generation.Inlets
import VisualBlocks.Proofs.Generation.Recording
import VisualBlocks.Proofs.Generation.Trace

/-!
# The trace of a tree

`BlockTree.visits g place t` is the order in which generation comes to the blocks of a tree: the first
block, then what is in its inlets, one inlet after the other, and in a chain what follows it.  Behind
a block whose value is read nothing follows, and a block that no rule can turn into text stays closed.
**The trace of a program is that of its trees** (`tracedGenerate_forest`).

The invariant of the walk is that of the journals: between the blocks of a tree no chain has been to
any of them.
-/

set_option autoImplicit false

namespace VisualBlocks

open Generation

/-- Where generation comes to a block: in a chain, or in an input whose value is read. -/
inductive Place where
  | chain
  | value
deriving Repr, DecidableEq

/-- The place of the blocks in an inlet. -/
def Inlet.place : Inlet → Place
  | .value _ => .value
  | .body _ => .chain

/-! ## Visits -/

namespace Generation.Generator

/-- What becomes of blocks of a type in a place, by the rules. -/
def role (g : Generator) : Place → String → Handling
  | .chain, type => g.handling type
  | .value, type =>
    match g.rules.get? type with
    | some (.value _) => .expression
    | _ => .placeholder

/-- The inlets that are read of a block in a place. -/
def opened (g : Generator) (place : Place) (type : String) (mutation : Table String) : List Inlet :=
  if g.role place type = .placeholder then [] else inlets type mutation

end Generation.Generator

namespace BlockTree

mutual

/-- The blocks of a tree in the order in which generation comes to them. -/
def visits (g : Generator) : Place → BlockTree → List Entry
  | place, mk id type _ mutation inputs next =>
    ⟨id, g.role place type⟩ ::
      (((g.opened place type mutation).flatMap fun inlet =>
          ((inputVisits g inlet.place inputs).lookup inlet.socket).getD []) ++
        match place with
        | .chain => chainVisits g next
        | .value => [])

/-- The visits to the trees in the inputs, if they are read in a place. -/
def inputVisits (g : Generator) : Place → List (String × BlockTree) → List (String × List Entry)
  | _, [] => []
  | place, (socket, t) :: rest => (socket, t.visits g place) :: inputVisits g place rest

/-- The visits to a chain, if there is one. -/
def chainVisits (g : Generator) : Option BlockTree → List Entry
  | none => []
  | some t => t.visits g .chain

end

variable {g : Generator} {t : BlockTree}

/-- The visits to what is in an inlet. -/
def inletVisits (g : Generator) (t : BlockTree) (inlet : Inlet) : List Entry :=
  (t.input? inlet.socket).elim [] (visits g inlet.place)

/-- The visits to what follows a block in a place. -/
def nextVisits (g : Generator) (t : BlockTree) : Place → List Entry
  | .chain => t.next.elim [] (visits g .chain)
  | .value => []

theorem lookup_inputVisits (place : Place) (inputs : List (String × BlockTree)) (socket : String) :
    ((inputVisits g place inputs).lookup socket).getD [] =
      (inputs.lookup socket).elim [] (visits g place) := by
  induction inputs with
  | nil => rfl
  | cons e es ih =>
    obtain ⟨name, c⟩ := e
    rw [inputVisits, List.lookup_cons, List.lookup_cons]
    cases socket == name
    · exact ih
    · rfl

/-- **A tree is visited at its root, in the inlets of the root, and behind it.** -/
theorem visits_eq (place : Place) (t : BlockTree) :
    t.visits g place = ⟨t.id, g.role place t.type⟩ ::
      ((g.opened place t.type t.mutation).flatMap (t.inletVisits g) ++ t.nextVisits g place) := by
  obtain ⟨id, type, fields, mutation, inputs, next⟩ := t
  have hlookup := funext fun inlet : Inlet =>
    lookup_inputVisits (g := g) inlet.place inputs inlet.socket
  cases place with
  | chain =>
    rw [visits, hlookup]
    cases next <;> rfl
  | value =>
    rw [visits, hlookup]
    rfl

theorem mem_inletVisits {inlet : Inlet} {e : Entry} :
    e ∈ t.inletVisits g inlet ↔
      ∃ c, t.input? inlet.socket = some c ∧ e ∈ c.visits g inlet.place := by
  rw [inletVisits]
  cases t.input? inlet.socket <;> simp

/-- A value ends a chain. -/
theorem nextVisits_value (t : BlockTree) : t.nextVisits g .value = [] := rfl

theorem mem_nextVisits {place : Place} {e : Entry} :
    e ∈ t.nextVisits g place ↔ place = .chain ∧ ∃ c, t.next = some c ∧ e ∈ c.visits g .chain := by
  rw [nextVisits.eq_def]
  cases place <;> cases t.next <;> simp

end BlockTree

namespace Generation

open BlockTree

variable {g : Generator} {graph : Graph} {t : BlockTree} {p : Pass} {levels : Nat}

/-! ## One block -/

/-- The requests of a rule for the root of the tree are answered: those for what is in an inlet with
the visits to it, and those for names without any. -/
structure VisitsFor (g : Generator) (t : BlockTree) (answer : Request → Noted Entry String) : Prop where
  inlet {r : Request} {inlet : Inlet} (hr : r.inlet? = some inlet) {p : Pass}
    (hp : p.Unentered (t.inputIds inlet.socket)) :
    (answer r).Records p (t.inputIds inlet.socket) (t.inletVisits g inlet)
  name {r : Request} (hr : r.inlet? = none) (p : Pass) : (answer r).Records p [] []

/-- **A rule visits the inlets that it reads.** -/
theorem Noted.Records.run_reads {α : Type} {answer : Request → Noted Entry String}
    (h : VisitsFor g t answer) (hnodup : t.ids.Nodup) {e : Emission α} {inlets : List Inlet}
    (he : e.Reads (fun socket => (t.input? socket).isSome) inlets)
    (hinlets : (inlets.map Inlet.socket).Nodup)
    (hp : ∀ inlet ∈ inlets, p.Unentered (t.inputIds inlet.socket)) :
    (e.run answer).Records p (inlets.flatMap fun inlet => t.inputIds inlet.socket)
      (inlets.flatMap (t.inletVisits g)) := by
  induction he generalizing p with
  | done a => exact .pure a
  | @inlet r inlet inlets resume hr _ ih =>
    rw [List.forall_mem_cons] at hp
    obtain ⟨hnew, hinlets⟩ := List.nodup_cons.1 hinlets
    rw [List.flatMap_cons, List.flatMap_cons]
    refine (h.inlet hr hp.1).bind fun code q hpq => ih code hinlets fun other hother => ?_
    refine hpq.unentered (hp.2 other hother) (disjoint_inputIds hnodup fun heq => ?_)
    exact hnew (heq ▸ List.mem_map_of_mem hother)
  | @unfilled inlet inlets e hunfilled _ ih =>
    rw [List.forall_mem_cons] at hp
    have hnone := Option.isNone_iff_eq_none.1 (Option.isSome_eq_false_iff.1 hunfilled)
    have hids : t.inputIds inlet.socket = [] := by rw [inputIds, hnone]
    have hvisits : t.inletVisits g inlet = [] := by rw [inletVisits, hnone]; rfl
    rw [List.flatMap_cons, List.flatMap_cons, hids, hvisits]
    exact ih (List.nodup_cons.1 hinlets).2 hp.2
  | name hr _ ih =>
    refine (h.name hr p).bind fun code q hpq => ih code hinlets fun other hother => ?_
    exact hpq.unentered (hp other hother) (List.forall_mem_nil _)

/-- What a traced walk writes down for trees with at most so many blocks. -/
structure VisitingWalks (g : Generator) (graph : Graph) (levels : Nat) : Prop where
  expression {t : BlockTree} (h : Planted graph t) (hlevels : t.blocks.length ≤ levels)
    (default : String) {p : Pass} (hp : p.Unentered t.ids) :
    (g.tracedExpression graph levels t.id default).Records p t.ids (t.visits g .value)
  chain {t : BlockTree} (h : Planted graph t) (hlevels : t.blocks.length ≤ levels) {p : Pass}
    (hp : p.Unentered t.ids) :
    (g.tracedChain graph levels (some t.id)).Records p t.ids (t.visits g .chain)

/-- The requests of a rule are answered by what is known of the parts. -/
theorem visitsFor (hwalks : VisitingWalks g graph levels) (h : Planted graph t)
    (hlevels : t.blocks.length ≤ levels + 1) :
    VisitsFor g t (g.notedAnswer (g.tracedExpression graph levels) (g.tracedChain graph levels)
      t.node) where
  inlet {r inlet} hr p hp := by
    have hpart {c : BlockTree} (hc : t.input? inlet.socket = some c) :
        Planted graph c ∧ c.blocks.length ≤ levels := by
      have hlength := (isPart_input hc).length_lt
      exact ⟨h.part (isPart_input hc), by omega⟩
    rw [inputIds_eq] at hp ⊢
    rw [inletVisits]
    cases r with
    | value socket outer default =>
      obtain rfl := Option.some.inj hr
      rw [Generator.notedAnswer, node_input?]
      cases hinput : t.input? socket with
      | none =>
        rw [Inlet.socket, hinput]
        exact .pure default
      | some c =>
        rw [Inlet.socket, hinput] at hp ⊢
        exact .map (fun r => g.language.enclose outer r.2 r.1)
          (hwalks.expression (hpart hinput).1 (hpart hinput).2 default hp)
    | body socket =>
      obtain rfl := Option.some.inj hr
      rw [Generator.notedAnswer, node_input?]
      exact optional_records (Generator.tracedChain_none levels)
        (fun c hc hp => hwalks.chain (hpart hc).1 (hpart hc).2 hp) hp
    | variableName raw => cases hr
    | freshName base => cases hr
  name {r} hr p := by
    cases r with
    | value socket outer default => cases hr
    | body socket => cases hr
    | variableName raw => exact .naming (p.variableName_visited g.language raw)
    | freshName base => exact .naming rfl

/-- Do the rules read the inlets of their blocks, and nothing else? -/
def Generator.ReadsInlets (g : Generator) : Prop :=
  ∀ {type : String} {rule : Rule}, g.rules.get? type = some rule → rule.ReadsInlets type

/-- **A rule for the root of a tree visits the inlets of the root.** -/
theorem rule_records {α : Type} (hwalks : VisitingWalks g graph levels) (h : Planted graph t)
    (hlevels : t.blocks.length ≤ levels + 1) {e : Emission α}
    (he : e.Reads (g.site graph t.id).isFilled (inlets t.type t.mutation))
    (hp : ∀ socket, p.Unentered (t.inputIds socket)) :
    (e.run (g.notedAnswer (g.tracedExpression graph levels) (g.tracedChain graph levels)
      t.node)).Records p (((inlets t.type t.mutation).map Inlet.socket).flatMap t.inputIds)
        ((inlets t.type t.mutation).flatMap (t.inletVisits g)) := by
  rw [h.isFilled] at he
  rw [List.flatMap_map]
  exact .run_reads (visitsFor hwalks h hlevels) h.nodup he (nodup_inlets _ _) fun inlet _ => hp _

/-- A block whose value is read, and what is in its inlets. -/
theorem value_visits (hrules : g.ReadsInlets) (hwalks : VisitingWalks g graph levels)
    (h : Planted graph t) (hlevels : t.blocks.length ≤ levels + 1) (default : String)
    (hp : p.Unentered t.ids) :
    (g.tracedExpression graph (levels + 1) t.id default).Records p
      (((g.opened .value t.type t.mutation).map Inlet.socket).flatMap t.inputIds)
      (t.visits g .value) := by
  have htype : t.node.type = t.type := rfl
  rw [Generator.tracedExpression, visits_eq, nextVisits_value, List.append_nil, Generator.opened,
    Generator.role, site_node h.held, htype]
  cases hrule : g.rules.get? t.type with
  | none => exact .note (.pure _)
  | some rule =>
    have he := hrules hrule
    cases rule with
    | statement emit => exact .note (.pure _)
    | value emit =>
      have he := he (g.site graph t.id)
      rw [site_node h.held] at he
      exact .note (rule_records hwalks h hlevels he fun socket id hid =>
        hp id (t.inputIds_subset socket id hid))

/-- The first block of a chain, and what is in its inlets. -/
theorem text_visits (hrules : g.ReadsInlets) (hwalks : VisitingWalks g graph levels)
    (h : Planted graph t) (hlevels : t.blocks.length ≤ levels + 1)
    (hp : ∀ socket, p.Unentered (t.inputIds socket)) :
    (g.notedText (g.notedAnswer (g.tracedExpression graph levels) (g.tracedChain graph levels)
      t.node) (g.site graph t.id) t.id).Records p
      (((g.opened .chain t.type t.mutation).map Inlet.socket).flatMap t.inputIds)
      (⟨t.id, g.role .chain t.type⟩ ::
        (g.opened .chain t.type t.mutation).flatMap (t.inletVisits g)) := by
  rw [Generator.notedText, site_type h.held, Generator.opened, Generator.role, Generator.handling]
  cases hrule : g.rules.get? t.type with
  | none => exact .note (.pure _)
  | some rule =>
    have he := hrules hrule
    cases rule with
    | statement emit =>
      have he := he (g.site graph t.id)
      rw [site_node h.held] at he
      exact .note (.map _ (rule_records hwalks h hlevels he hp))
    | value emit =>
      have he := he (g.site graph t.id)
      rw [site_node h.held] at he
      exact .note (.map _ (rule_records hwalks h hlevels he hp))

/-! ## Chains -/

theorem next_visits (hwalks : VisitingWalks g graph levels) (h : Planted graph t)
    (hlevels : t.blocks.length ≤ levels + 1) (q : Pass) (hq : q.Unentered t.nextIds) :
    (g.tracedChain graph levels (t.next.map BlockTree.id)).Records q t.nextIds
      (t.nextVisits g .chain) := by
  rw [nextIds_eq] at hq ⊢
  rw [nextVisits]
  refine optional_records (Generator.tracedChain_none levels) (fun c hc hp => ?_) hq
  have hlength := (isPart_next hc).length_lt
  exact hwalks.chain (h.part (isPart_next hc)) (by omega) hp

theorem chain_visits (hrules : g.ReadsInlets) (hwalks : VisitingWalks g graph levels)
    (h : Planted graph t) (hlevels : t.blocks.length ≤ levels + 1) (hp : p.Unentered t.ids) :
    (g.tracedChain graph (levels + 1) (some t.id)).Records p t.ids (t.visits g .chain) := by
  rw [Generator.tracedChain, visits_eq, ← List.cons_append, site_node h.held]
  exact step_records h (text_visits hrules hwalks h hlevels) (next_visits hwalks h hlevels) hp

/-- **The trace of a tree are its visits**, with as many levels as the tree has blocks. -/
theorem visitingWalks (hrules : g.ReadsInlets) (graph : Graph) (levels : Nat) :
    VisitingWalks g graph levels := by
  induction levels with
  | zero =>
    exact ⟨fun {t} _ hlevels => absurd t.length_blocks_pos (Nat.not_lt.2 hlevels),
      fun {t} _ hlevels => absurd t.length_blocks_pos (Nat.not_lt.2 hlevels)⟩
  | succ levels ih =>
    refine ⟨fun h hlevels default _ hp => ?_, fun h hlevels _ hp => chain_visits hrules ih h hlevels hp⟩
    refine (value_visits hrules ih h hlevels default hp).mono fun id hid => ?_
    exact mem_ids_of_below id (List.mem_append_left _ hid)

/-! ## Programs -/

/-- **The trace of a top-level block is that of its chain**, also where the block is a value. -/
theorem root_visits (hrules : g.ReadsInlets) (h : Planted graph t) (hp : p.Unentered t.ids) :
    (g.tracedRoot graph t.id).Records p t.ids (t.visits g .chain) := by
  have hlevels := length_le_levels h.held h.nodup
  have hsucc : Generator.levels graph = Generator.levels graph - 1 + 1 :=
    (Nat.succ_pred_eq_of_pos (Nat.lt_of_lt_of_le t.length_blocks_pos hlevels)).symm
  rw [hsucc] at hlevels
  have hwalks := visitingWalks hrules graph (Generator.levels graph - 1)
  have hchain := chain_visits hrules hwalks h hlevels hp
  rw [Generator.tracedRoot, site_type h.held, site_node h.held, hsucc]
  split
  · next emit hrule =>
    have hrole : g.role .chain t.type = g.role .value t.type := by
      rw [Generator.role, Generator.role, Generator.handling, hrule]
    have hvisits : t.visits g .chain = t.visits g .value ++ t.nextVisits g .chain := by
      rw [visits_eq, visits_eq, Generator.opened, Generator.opened, hrole, nextVisits_value,
        List.append_nil, List.cons_append]
    have hvalue := Noted.Records.map (fun e => asStatement e.1)
      (value_visits hrules hwalks h hlevels "null" hp)
    have hall := append_records h hvalue (next_visits (visitingWalks hrules graph _) h
      (Nat.le_succ_of_le hlevels)) fun id hid => hp id (nextIds_subset t id hid)
    simp only [map_eq_pure_bind, bind_assoc, pure_bind] at hall
    rw [hvisits]
    exact hall.mono mem_ids_of_below
  · exact hchain

/-- **The trace of a program is that of its trees**, one after the other. -/
theorem tracedGenerate_forest (hrules : g.ReadsInlets) {forest : List BlockTree}
    (hforest : ∀ t ∈ forest, Planted graph t) (hnodup : (forest.flatMap BlockTree.ids).Nodup) :
    ∃ code, g.generate graph (forest.map BlockTree.id) = some code ∧
      g.tracedGenerate graph (forest.map BlockTree.id) =
        some (code, forest.flatMap (visits g .chain)) := by
  have hstart : Pass.start.Unentered (forest.flatMap BlockTree.ids) := nofun
  obtain ⟨chunks, pass, hrun, -⟩ := forest_records (fun ht hp => root_visits hrules ht hp) hforest
    hnodup hstart []
  have htraced : ∃ code, g.tracedGenerate graph (forest.map BlockTree.id) =
      some (code, forest.flatMap (visits g .chain)) := by
    rw [Generator.tracedGenerate, StateT.run, hrun]
    exact ⟨_, rfl⟩
  obtain ⟨code, hcode⟩ := htraced
  refine ⟨code, ?_, hcode⟩
  rw [← Generator.map_fst_tracedGenerate, hcode, Option.map_some]

end Generation
end VisualBlocks

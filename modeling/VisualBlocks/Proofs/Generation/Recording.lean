import VisualBlocks.Proofs.Generation.Entries
import VisualBlocks.Proofs.Generation.Roots

/-!
# What a walk over trees writes down

**The journal of a chain is that of its tree** (`recordingWalks`), and the journal of a program is
that of its trees, one after the other (`notedGenerate_forest`).

A pass has one set of the blocks that it has been to, for all chains together.  That the set never
stands in the way is the invariant of the walk: a chain enters the blocks of its own tree only
(`Noted.Records`), and neither two inputs of a block nor an input and what follows have a block in
common.  The text plays no part here, so the trees may hold anything.
-/

set_option autoImplicit false

namespace VisualBlocks
namespace Generation

open BlockTree

/-! ## Steps -/

/-- The pass has gone on without entering other blocks than the given ones. -/
def Pass.Enters (p : Pass) (ids : List String) (q : Pass) : Prop :=
  ∀ id ∈ q.visited, id ∈ p.visited ∨ id ∈ ids

/-- None of the blocks has been entered. -/
def Pass.Unentered (p : Pass) (ids : List String) : Prop := ∀ id ∈ ids, id ∉ p.visited

namespace Pass.Enters

variable {p q r : Pass} {xs ys : List String}

theorem of_eq (h : q.visited = p.visited) : p.Enters [] q := fun _ hid => .inl (h ▸ hid)

theorem trans (hpq : p.Enters xs q) (hqr : q.Enters ys r) : p.Enters (xs ++ ys) r := by
  intro id hid
  rcases hqr id hid with hid | hid
  · exact (hpq id hid).imp_right (List.mem_append_left _)
  · exact .inr (List.mem_append_right _ hid)

theorem mono (h : p.Enters xs q) (hsub : ∀ id ∈ xs, id ∈ ys) : p.Enters ys q :=
  fun id hid => (h id hid).imp_right (hsub id)

/-- What has nothing in common with the blocks that were entered is still to come. -/
theorem unentered (h : p.Enters xs q) (hp : p.Unentered ys) (hapart : ∀ id ∈ xs, id ∉ ys) :
    q.Unentered ys := by
  intro id hid hentered
  rcases h id hentered with hold | hnew
  · exact hp id hid hold
  · exact hapart id hnew hid

end Pass.Enters

/-- Begun at the pass, the step comes to an end.  It writes the entries down, and it enters no
other blocks than the given ones. -/
def Noted.Records {α : Type} (y : Noted Entry α) (p : Pass) (ids : List String)
    (es : List Entry) : Prop :=
  ∀ journal, ∃ a q, y (p, journal) = some (a, q, journal ++ es) ∧ p.Enters ids q

namespace Noted.Records

variable {α β : Type} {y : Noted Entry α} {p : Pass} {ids ids' : List String} {es es' : List Entry}

theorem pure (a : α) : (Pure.pure a : Noted Entry α).Records p [] [] :=
  fun journal => ⟨a, p, by rw [List.append_nil]; rfl, .of_eq rfl⟩

theorem naming {f : Pass → String × Pass} (h : (f p).2.visited = p.visited) :
    (Noted.plain (Walk.naming f)).Records p [] [] :=
  fun journal => ⟨(f p).1, (f p).2, by rw [List.append_nil]; rfl, .of_eq h⟩

theorem bind {f : α → Noted Entry β} (h : y.Records p ids es)
    (hf : ∀ a q, p.Enters ids q → (f a).Records q ids' es') :
    (y >>= f).Records p (ids ++ ids') (es ++ es') := by
  intro journal
  obtain ⟨a, q, hy, hpq⟩ := h journal
  obtain ⟨b, r, hb, hqr⟩ := hf a q hpq (journal ++ es)
  have hbind : (y >>= f) (p, journal) = (y (p, journal)).bind fun s => f s.1 s.2 := rfl
  refine ⟨b, r, ?_, hpq.trans hqr⟩
  rw [hbind, hy, Option.bind_some, hb, List.append_assoc]

theorem mono (h : y.Records p ids es) (hsub : ∀ id ∈ ids, id ∈ ids') : y.Records p ids' es := by
  intro journal
  obtain ⟨a, q, hy, hpq⟩ := h journal
  exact ⟨a, q, hy, hpq.mono hsub⟩

theorem map (f : α → β) (h : y.Records p ids es) : (f <$> y).Records p ids es := by
  rw [map_eq_pure_bind]
  have hbind := h.bind fun a q _ => pure (f a)
  rwa [List.append_nil, List.append_nil] at hbind

theorem note {e : Entry} (h : y.Records p ids es) :
    (do Noted.note e; y : Noted Entry α).Records p ids (e :: es) := by
  intro journal
  obtain ⟨a, q, hy, hpq⟩ := h (journal ++ [e])
  rw [List.append_assoc, List.singleton_append] at hy
  exact ⟨a, q, hy, hpq⟩

end Noted.Records

/-! ## Rules -/

/-- The requests of a rule for the root of the tree are answered: those for bodies with the entries
of the bodies, and the others without any. -/
structure AnswersFor (g : Generator) (t : BlockTree) (answer : Request → Noted Entry String) :
    Prop where
  body (socket : String) {p : Pass} (hp : p.Unentered (t.inputIds socket)) :
    (answer (.body socket)).Records p (t.inputIds socket) (t.bodyEntries g socket)
  other {r : Request} (hr : ∀ socket, r ≠ .body socket) (p : Pass) : (answer r).Records p [] []

/-- **A rule writes down the bodies that it asks for.** -/
theorem Noted.Records.run {α : Type} {g : Generator} {t : BlockTree}
    {answer : Request → Noted Entry String} (h : AnswersFor g t answer) (hnodup : t.ids.Nodup)
    {e : Emission α} {sockets : List String}
    (he : e.Bodies (fun socket => (t.input? socket).isSome) sockets) (hsockets : sockets.Nodup)
    {p : Pass} (hp : ∀ socket ∈ sockets, p.Unentered (t.inputIds socket)) :
    (e.run answer).Records p (sockets.flatMap t.inputIds) (sockets.flatMap (t.bodyEntries g)) := by
  induction he generalizing p with
  | done a => exact .pure a
  | @body socket sockets resume _ _ ih =>
    rw [List.forall_mem_cons] at hp
    obtain ⟨hnew, hsockets⟩ := List.nodup_cons.1 hsockets
    rw [List.flatMap_cons, List.flatMap_cons]
    refine (h.body socket hp.1).bind fun code q hpq => ih code hsockets fun other hother => ?_
    refine hpq.unentered (hp.2 other hother) (disjoint_inputIds hnodup ?_)
    rintro rfl
    exact hnew hother
  | @unfilled socket sockets resume hunfilled _ ih =>
    have hnone := Option.isNone_iff_eq_none.1 (Option.isSome_eq_false_iff.1 hunfilled)
    have hids : t.inputIds socket = [] := by rw [inputIds, hnone]
    have hentries : t.bodyEntries g socket = [] := by rw [bodyEntries, hnone, chainEntries]
    have hbody := h.body socket (p := p) (by rw [hids]; exact List.forall_mem_nil _)
    rw [hids, hentries] at hbody
    refine hbody.bind fun code q hpq => ih code hsockets fun other hother => ?_
    exact hpq.unentered (hp other hother) (List.forall_mem_nil _)
  | other hr _ ih =>
    refine (h.other hr p).bind fun code q hpq => ih code hsockets fun other hother => ?_
    exact hpq.unentered (hp other hother) (List.forall_mem_nil _)

/-! ## Trees in a graph -/

/-- The tree stands in the graph, and none of its blocks stands in it twice. -/
structure Planted (graph : Graph) (t : BlockTree) : Prop where
  held : graph.Holds t
  nodup : t.ids.Nodup

variable {v : Vocabulary} {registry : Registry} {graph : Graph} {t c : BlockTree} {p : Pass}

namespace Planted

theorem part (h : Planted graph t) (hc : c.IsPart t) : Planted graph c :=
  ⟨h.held.part hc, hc.nodup h.nodup⟩

theorem isFilled (h : Planted graph t) (g : Generator) :
    (g.site graph t.id).isFilled = fun socket => (t.input? socket).isSome := by
  funext socket
  rw [Site.isFilled, site_node h.held, Table.contains, node_input?, Option.isSome_map]

end Planted

/-- What a walk writes down for trees with at most so many blocks. -/
structure RecordingWalks (g : Generator) (graph : Graph) (levels : Nat) : Prop where
  expression {t : BlockTree} (h : Planted graph t) (hlevels : t.blocks.length ≤ levels)
    (default : String) (p : Pass) : (g.notedExpression graph levels t.id default).Records p [] []
  chain {t : BlockTree} (h : Planted graph t) (hlevels : t.blocks.length ≤ levels) {p : Pass}
    (hp : p.Unentered t.ids) :
    (g.notedChain graph levels (some t.id)).Records p t.ids (t.entries g)

variable {g : Generator} {levels : Nat}

/-- A chain that may be empty. -/
theorem optional_records {walk : Option String → Noted Entry String} (hnone : walk none = pure "")
    {f : BlockTree → List Entry} {chain : Option BlockTree}
    (hchain : ∀ c, chain = some c → p.Unentered c.ids → (walk (some c.id)).Records p c.ids (f c))
    (hp : p.Unentered (chain.elim [] BlockTree.ids)) :
    (walk (chain.map BlockTree.id)).Records p (chain.elim [] BlockTree.ids) (chain.elim [] f) := by
  cases chain with
  | none =>
    rw [Option.map_none, hnone]
    exact .pure ""
  | some c => exact hchain c rfl hp

theorem chainEntries_eq (g : Generator) (chain : Option BlockTree) :
    chainEntries g chain = chain.elim [] (BlockTree.entries g) := by
  cases chain <;> rfl

theorem inputIds_eq (t : BlockTree) (socket : String) :
    t.inputIds socket = (t.input? socket).elim [] BlockTree.ids := by
  rw [inputIds]
  cases t.input? socket <;> rfl

theorem nextIds_eq (t : BlockTree) : t.nextIds = t.next.elim [] BlockTree.ids := by
  rw [nextIds]
  cases t.next <;> rfl

/-- The requests of a rule are answered by what is known of the parts. -/
theorem answersFor (hwalks : RecordingWalks g graph levels) (h : Planted graph t)
    (hlevels : t.blocks.length ≤ levels + 1) :
    AnswersFor g t (g.notedAnswer (g.notedExpression graph levels) (g.notedChain graph levels)
      t.node) where
  body socket {p} hp := by
    rw [inputIds_eq] at hp ⊢
    rw [Generator.notedAnswer, node_input?, bodyEntries, chainEntries_eq]
    refine optional_records (Generator.notedChain_none levels) (fun c hc hp => ?_) hp
    have hlength := (isPart_input hc).length_lt
    exact hwalks.chain (h.part (isPart_input hc)) (by omega) hp
  other {r} hr p := by
    cases r with
    | body socket => exact absurd rfl (hr socket)
    | value socket outer default =>
      rw [Generator.notedAnswer, node_input?]
      cases hinput : t.input? socket with
      | none => exact .pure default
      | some c =>
        have hlength := (isPart_input hinput).length_lt
        exact (hwalks.expression (h.part (isPart_input hinput)) (by omega) default p).bind
          fun _ q _ => .pure _
    | variableName raw => exact .naming (p.variableName_visited g.language raw)
    | freshName base => exact .naming rfl

/-! ## One block -/

/-- Do the rules ask for the bodies of their blocks, and for no others? -/
def Generator.AsksBodies (g : Generator) : Prop :=
  ∀ {type : String} {rule : Rule}, g.rules.get? type = some rule → rule.AsksBodies type

theorem expression_records (hrules : g.AsksBodies) (hwalks : RecordingWalks g graph levels)
    (h : Planted graph t) (hlevels : t.blocks.length ≤ levels + 1) (default : String) (p : Pass) :
    (g.notedExpression graph (levels + 1) t.id default).Records p [] [] := by
  rw [Generator.notedExpression, site_node h.held]
  split
  · next emit hrule =>
    have hbodies := (hrules hrule).2 (g.site graph t.id)
    rw [h.isFilled] at hbodies
    exact .run (answersFor hwalks h hlevels) h.nodup hbodies .nil (List.forall_mem_nil _)
  · exact .pure _

/-- What is nothing for an input that is not filled need not be asked for there. -/
theorem flatMap_filled {α : Type} {f : String → List α}
    (hf : ∀ socket, t.input? socket = none → f socket = []) (sockets : List String) :
    (sockets.filter fun socket => (t.input? socket).isSome).flatMap f = sockets.flatMap f := by
  induction sockets with
  | nil => rfl
  | cons socket sockets ih =>
    rw [List.filter_cons, List.flatMap_cons, ← ih]
    cases hinput : t.input? socket with
    | none => rw [hf socket hinput]; rfl
    | some c => rfl

/-- **The first block of a chain stands before the chains in it.** -/
theorem text_records (hrules : g.AsksBodies) (hwalks : RecordingWalks g graph levels)
    (h : Planted graph t) (hlevels : t.blocks.length ≤ levels + 1)
    (hp : ∀ socket, p.Unentered (t.inputIds socket)) :
    (g.notedText (g.notedAnswer (g.notedExpression graph levels) (g.notedChain graph levels) t.node)
      (g.site graph t.id) t.id).Records p
      ((g.sockets t.type t.mutation).flatMap t.inputIds)
      (⟨t.id, g.handling t.type⟩ :: (g.sockets t.type t.mutation).flatMap (t.bodyEntries g)) := by
  have hanswers := answersFor hwalks h hlevels
  rw [Generator.notedText, site_type h.held, Generator.handling, Generator.sockets, Generator.knows,
    Table.contains]
  cases hrule : g.rules.get? t.type with
  | none => exact .note (.pure _)
  | some rule =>
    have hbodies := hrules hrule
    cases rule with
    | statement emit =>
      have hasked := hbodies (g.site graph t.id)
      rw [h.isFilled, site_node h.held] at hasked
      have hrun := Noted.Records.run (p := p) hanswers h.nodup hasked
        ((nodup_bodySockets _ _).filter _) fun socket _ => hp socket
      rw [flatMap_filled fun socket hnone => by rw [inputIds, hnone],
        flatMap_filled fun socket hnone => by rw [bodyEntries, hnone, chainEntries]] at hrun
      exact .note (.map _ hrun)
    | value emit =>
      have hasked := hbodies.2 (g.site graph t.id)
      rw [h.isFilled] at hasked
      have hrun := Noted.Records.run (p := p) hanswers h.nodup hasked .nil (List.forall_mem_nil _)
      rw [hbodies.1, Option.isSome_some, if_pos rfl]
      exact .note (.map _ hrun)

/-! ## Chains -/

/-- What follows a block comes after what is in it. -/
theorem append_records (h : Planted graph t) {own rest : Noted Entry String} {sockets : List String}
    {es es' : List Entry} (hown : own.Records p (sockets.flatMap t.inputIds) es)
    (hrest : ∀ q : Pass, q.Unentered t.nextIds → rest.Records q t.nextIds es')
    (hp : p.Unentered t.nextIds) :
    (do return (← own) ++ (← rest) : Noted Entry String).Records p
      (sockets.flatMap t.inputIds ++ t.nextIds) (es ++ es') := by
  refine hown.bind fun code q hpq => .map (code ++ ·) (hrest q (hpq.unentered hp fun id hid => ?_))
  obtain ⟨socket, -, hid⟩ := List.mem_flatMap.1 hid
  exact disjoint_nextIds h.nodup socket id hid

theorem mem_ids_of_below {sockets : List String} :
    ∀ id ∈ sockets.flatMap t.inputIds ++ t.nextIds, id ∈ t.ids := by
  intro id hid
  rcases List.mem_append.1 hid with hid | hid
  · obtain ⟨socket, -, hid⟩ := List.mem_flatMap.1 hid
    exact t.inputIds_subset socket id hid
  · exact nextIds_subset t id hid

/-- **A step to the root of a tree enters the blocks of the tree.** -/
theorem step_records (h : Planted graph t) {answer : Request → Noted Entry String}
    {chain : Option String → Noted Entry String} {sockets : List String} {es es' : List Entry}
    (htext : (∀ socket, (p.visit t.id).Unentered (t.inputIds socket)) →
      (g.notedText answer (g.site graph t.id) t.id).Records (p.visit t.id)
        (sockets.flatMap t.inputIds) es)
    (hnext : ∀ q : Pass, q.Unentered t.nextIds →
      (chain (t.next.map BlockTree.id)).Records q t.nextIds es')
    (hp : p.Unentered t.ids) :
    (g.notedStep graph answer chain t.id).Records p t.ids (es ++ es') := by
  have hown := htext fun socket => not_mem_visit (id_not_mem_inputIds h.nodup socket) fun id hid =>
    hp id (t.inputIds_subset socket id hid)
  have hall := append_records h hown hnext <|
    not_mem_visit (id_not_mem_nextIds h.nodup) fun id hid => hp id (nextIds_subset t id hid)
  intro journal
  obtain ⟨code, q, hrun, hpq⟩ := hall journal
  refine ⟨code, q, ?_, fun id hid => ?_⟩
  · rw [Generator.notedStep_fresh (hp _ t.id_mem_ids), site_node h.held]
    exact hrun
  · rcases hpq id hid with hid | hid
    · rcases List.mem_cons.1 hid with rfl | hold
      · exact .inr t.id_mem_ids
      · exact .inl hold
    · exact .inr (mem_ids_of_below id hid)

/-- The chain that follows a block. -/
theorem next_records (hwalks : RecordingWalks g graph levels) (h : Planted graph t)
    (hlevels : t.blocks.length ≤ levels + 1) (q : Pass) (hq : q.Unentered t.nextIds) :
    (g.notedChain graph levels (t.next.map BlockTree.id)).Records q t.nextIds
      (chainEntries g t.next) := by
  rw [nextIds_eq] at hq ⊢
  rw [chainEntries_eq]
  refine optional_records (Generator.notedChain_none levels) (fun c hc hp => ?_) hq
  have hlength := (isPart_next hc).length_lt
  exact hwalks.chain (h.part (isPart_next hc)) (by omega) hp

theorem chain_records (hrules : g.AsksBodies) (hwalks : RecordingWalks g graph levels)
    (h : Planted graph t) (hlevels : t.blocks.length ≤ levels + 1) (hp : p.Unentered t.ids) :
    (g.notedChain graph (levels + 1) (some t.id)).Records p t.ids (t.entries g) := by
  rw [Generator.notedChain_some, entries_eq, ← List.cons_append, site_node h.held]
  exact step_records h (text_records hrules hwalks h hlevels) (next_records hwalks h hlevels) hp

/-- **The journal of a chain is that of its tree**, with as many levels as the tree has blocks. -/
theorem recordingWalks (hrules : g.AsksBodies) (graph : Graph) (levels : Nat) :
    RecordingWalks g graph levels := by
  induction levels with
  | zero =>
    exact ⟨fun {t} _ hlevels => absurd t.length_blocks_pos (Nat.not_lt.2 hlevels),
      fun {t} _ hlevels => absurd t.length_blocks_pos (Nat.not_lt.2 hlevels)⟩
  | succ levels ih =>
    exact ⟨fun h hlevels default p => expression_records hrules ih h hlevels default p,
      fun h hlevels _ hp => chain_records hrules ih h hlevels hp⟩

/-! ## Programs -/

/-- **The journal of a top-level block is that of its tree**, also where the block is a value: then
it comes first, and the rest of its chain follows. -/
theorem root_records (hrules : g.AsksBodies) (h : Planted graph t) (hp : p.Unentered t.ids) :
    (g.notedRoot graph t.id).Records p t.ids (t.entries g) := by
  have hwalks := recordingWalks hrules graph (Generator.levels graph)
  have hlevels := length_le_levels h.held h.nodup
  rw [Generator.notedRoot, site_type h.held]
  split
  · next emit hrule =>
    have hentries : t.entries g = [⟨t.id, .expression⟩] ++ chainEntries g t.next := by
      rw [entries_eq, Generator.handling, Generator.sockets, (hrules hrule).1, hrule, ite_self]
      rfl
    have hown : (do
        Noted.note ⟨t.id, .expression⟩
        (fun e => asStatement e.1) <$>
          g.notedExpression graph (Generator.levels graph) t.id "null" :
        Noted Entry String).Records p (([] : List String).flatMap t.inputIds) [⟨t.id, .expression⟩] :=
      .note (.map _ (hwalks.expression h hlevels "null" p))
    have hall := append_records h hown (next_records hwalks h (Nat.le_succ_of_le hlevels))
      fun id hid => hp id (nextIds_subset t id hid)
    simp only [map_eq_pure_bind, bind_assoc, pure_bind] at hall
    rw [hentries, site_node h.held]
    exact hall.mono mem_ids_of_below
  · exact hwalks.chain h hlevels hp

/-- Trees without a common block are walked one after the other. -/
theorem forest_records {walk : String → Noted Entry String} {f : BlockTree → List Entry}
    (hwalk : ∀ {t : BlockTree} {p : Pass}, Planted graph t → p.Unentered t.ids →
      (walk t.id).Records p t.ids (f t)) {forest : List BlockTree}
    (hforest : ∀ t ∈ forest, Planted graph t) (hnodup : (forest.flatMap BlockTree.ids).Nodup)
    (hp : p.Unentered (forest.flatMap BlockTree.ids)) :
    ((forest.map BlockTree.id).mapM walk).Records p (forest.flatMap BlockTree.ids)
      (forest.flatMap f) := by
  induction forest generalizing p with
  | nil => exact .pure []
  | cons t ts ih =>
    rw [List.forall_mem_cons] at hforest
    rw [List.flatMap_cons] at hnodup hp ⊢
    obtain ⟨-, hrest, hapart⟩ := List.nodup_append.1 hnodup
    rw [List.map_cons, List.mapM_cons, List.flatMap_cons]
    refine (hwalk hforest.1 fun id hid => hp id (List.mem_append_left _ hid)).bind
      fun code q hpq => ?_
    have hlater := hpq.unentered (fun id hid => hp id (List.mem_append_right _ hid))
      fun id hid hid' => hapart id hid id hid' rfl
    exact .map (code :: ·) (ih hforest.2 hrest hlater)

/-- **The journal of a program is that of its trees**, one after the other. -/
theorem notedGenerate_forest (hrules : g.AsksBodies) {forest : List BlockTree}
    (hforest : ∀ t ∈ forest, Planted graph t) (hnodup : (forest.flatMap BlockTree.ids).Nodup) :
    ∃ code, g.generate graph (forest.map BlockTree.id) = some code ∧
      g.notedGenerate graph (forest.map BlockTree.id) =
        some (code, forest.flatMap fun t => t.entries g) := by
  have hstart : Pass.start.Unentered (forest.flatMap BlockTree.ids) := nofun
  obtain ⟨chunks, pass, hrun, -⟩ := forest_records (fun ht hp => root_records hrules ht hp) hforest
    hnodup hstart []
  have hnoted : ∃ code, g.notedGenerate graph (forest.map BlockTree.id) =
      some (code, forest.flatMap fun t => t.entries g) := by
    rw [Generator.notedGenerate, StateT.run, hrun]
    exact ⟨_, rfl⟩
  obtain ⟨code, hcode⟩ := hnoted
  refine ⟨code, ?_, hcode⟩
  rw [← Generator.map_fst_notedGenerate, hcode, Option.map_some]

end Generation
end VisualBlocks

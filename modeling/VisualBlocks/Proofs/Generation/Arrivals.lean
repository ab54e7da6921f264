import VisualBlocks.Proofs.Generation.Journal

/-!
# Arrivals

On a graph that is not a forest a chain may come to a block more than once.  A watched walk goes
through a graph in the way of `Generator.generate`, and it writes down three kinds of events: that a
chain arrives at a block, that the rule of a statement is run, and that a chain ends, with all the
text that it has written from that block on.

**A watched walk without its events is the walk** (`map_fst_watchedGenerate`), on every graph.  And
on every graph the events are in order (`observed_of_watched`): no rule of a statement is run twice,
and a chain that arrives where one has been before leaves at once, with nothing but a warning.
-/

set_option autoImplicit false

namespace VisualBlocks
namespace Generation

/-- What can be seen of a walk. -/
inductive Event where
  /-- A chain has come to the block. -/
  | arrive (id : String)
  /-- The rule of the block makes a statement. -/
  | run (id : String)
  /-- The chain has come to its end, and this is its text from the block on. -/
  | leave (id text : String)
deriving Repr, DecidableEq

namespace Event

/-- The block whose rule makes a statement. -/
def ran? : Event → Option String
  | run id => some id
  | _ => none

/-- The blocks whose rules have made statements, in that order. -/
def ran (events : List Event) : List String := events.filterMap ran?

@[simp] theorem ran_nil : ran [] = [] := rfl

@[simp] theorem ran_arrive (id : String) (events : List Event) :
    ran (.arrive id :: events) = ran events := rfl

@[simp] theorem ran_run (id : String) (events : List Event) :
    ran (.run id :: events) = id :: ran events := rfl

@[simp] theorem ran_leave (id text : String) (events : List Event) :
    ran (.leave id text :: events) = ran events := rfl

@[simp] theorem ran_append (events more : List Event) :
    ran (events ++ more) = ran events ++ ran more :=
  List.filterMap_append

end Event

/-! ## Watched walks -/

namespace Generator

/-- The text of the first block of a chain. -/
def watchedText (g : Generator) (answer : Request → Noted Event String) (site : Site)
    (id : String) : Noted Event String :=
  match g.rules.get? site.node.type with
  | some (.statement emit) => do
    Noted.note (.run id)
    closeLine <$> (emit site).run answer
  | some (.value emit) => (fun e => asStatement e.1) <$> (emit site).run answer
  | none => pure (g.language.unsupportedStatement site.node.type id)

/-- The text of a chain from a block on, which the chain has come to. -/
def watchedStep (g : Generator) (graph : Graph) (answer : Request → Noted Event String)
    (chain : Option String → Noted Event String) (id : String) : Noted Event String := do
  if (← get).1.visited.contains id then
    return g.language.cycleWarning id
  Noted.plain (modify fun p => p.visit id)
  let code ← g.watchedText answer (g.site graph id) id
  return code ++ (← chain (g.site graph id).node.next)

mutual

/-- The expression of a block, and how tightly it binds. -/
def watchedExpression (g : Generator) (graph : Graph) :
    Nat → String → String → Noted Event (String × Order)
  | 0, _, _ => .plain .endless
  | levels + 1, id, default =>
    let site := g.site graph id
    match g.rules.get? site.node.type with
    | some (.value emit) =>
      (emit site).run
        (g.notedAnswer (g.watchedExpression graph levels) (g.watchedChain graph levels) site.node)
    | _ => pure (g.language.unsupportedValue site.node.type default, .atomic)

/-- The statements of a chain. -/
def watchedChain (g : Generator) (graph : Graph) : Nat → Option String → Noted Event String
  | _, none => pure ""
  | 0, some _ => .plain .endless
  | levels + 1, some id => do
    Noted.note (.arrive id)
    let text ← g.watchedStep graph
      (g.notedAnswer (g.watchedExpression graph levels) (g.watchedChain graph levels)
        (g.site graph id).node)
      (g.watchedChain graph levels) id
    Noted.note (.leave id text)
    return text

end

/-- The text of a top-level block and of what follows it. -/
def watchedRoot (g : Generator) (graph : Graph) (id : String) : Noted Event String := do
  let node := (g.site graph id).node
  match g.rules.get? node.type with
  | some (.value _) =>
    let (code, _) ← g.watchedExpression graph (levels graph) id "null"
    return asStatement code ++ (← g.watchedChain graph (levels graph) node.next)
  | _ => g.watchedChain graph (levels graph) (some id)

/-- The program of the given top-level blocks, and the events of its generation. -/
def watchedGenerate (g : Generator) (graph : Graph) (roots : List String) :
    Option (String × List Event) := do
  let (chunks, pass, events) ← (roots.mapM (g.watchedRoot graph)).run (.start, [])
  let body := String.intercalate "\n" (chunks.filter fun c => !c.isEmpty)
  return (Text.tidy (g.declaration pass.names ++ body), events)

/-! ## Without the events -/

variable {g : Generator} {graph : Graph} {levels : Nat}

theorem watchedChain_none (levels : Nat) : g.watchedChain graph levels none = pure "" := by
  rw [watchedChain.eq_def]

section Step

variable {answer : Request → Noted Event String} {chain : Option String → Noted Event String}
  {id : String} {p : Pass}

theorem watchedStep_fresh (hfresh : id ∉ p.visited) (events : List Event) :
    g.watchedStep graph answer chain id (p, events) =
      (do
        let code ← g.watchedText answer (g.site graph id) id
        return code ++ (← chain (g.site graph id).node.next) : Noted Event String)
        (p.visit id, events) := by
  rw [watchedStep, Walk.get_bind, if_neg (mt List.contains_iff_mem.1 hfresh)]
  rfl

theorem watchedStep_again (hvisited : id ∈ p.visited) (events : List Event) :
    g.watchedStep graph answer chain id (p, events) =
      some (g.language.cycleWarning id, p, events) := by
  rw [watchedStep, Walk.get_bind, if_pos (List.contains_iff_mem.2 hvisited)]
  rfl

theorem erases_watchedText
    (hanswer : ∀ r, (answer r).Erases (g.answer (g.expression graph levels) (g.chain graph levels)
      (g.site graph id).node r)) :
    (g.watchedText answer (g.site graph id) id).Erases (ownText g graph levels id) := by
  rw [watchedText, ownText]
  cases g.rules.get? (g.site graph id).node.type with
  | none => exact .pure _
  | some rule =>
    cases rule with
    | statement emit => exact .note _ (.map _ (.run hanswer _))
    | value emit => exact .map _ (.run hanswer _)

theorem erases_watchedStep
    (hanswer : ∀ r, (answer r).Erases (g.answer (g.expression graph levels) (g.chain graph levels)
      (g.site graph id).node r))
    (hchain : ∀ start, (chain start).Erases (g.chain graph levels start)) :
    (g.watchedStep graph answer chain id).Erases (g.chain graph (levels + 1) (some id)) :=
  erases_of_step (fun _ events hvisited => ⟨_, watchedStep_again hvisited events⟩)
    (fun _ events hfresh => watchedStep_fresh hfresh events) (erases_watchedText hanswer) hchain

end Step

variable (g graph)

theorem erasesWatched (levels : Nat) :
    ErasesWalks g graph (g.watchedExpression graph) (g.watchedChain graph) levels := by
  refine erasesWalks_of_succ (fun id default => ?_) (fun id => ?_) watchedChain_none
    (fun levels h id default => ?_) (fun levels h id => ?_) levels
  · rw [watchedExpression]
  · rw [watchedChain]
  · rw [watchedExpression]
    exact h.value id default
  · rw [watchedChain, ← bind_pure (g.chain graph (levels + 1) (some id))]
    exact .note _ ((erases_watchedStep (h.answer _) h.chain).bind fun text => .note _ (.pure text))

/-- **A watched walk without its events is the walk**, so it gives the same program. -/
theorem map_fst_watchedGenerate (roots : List String) :
    (g.watchedGenerate graph roots).map Prod.fst = g.generate graph roots :=
  map_fst_program (fun id => (erasesWatched g graph _).root id) roots

end Generator

/-! ## What can be observed -/

variable {l : Language} {p q r : Pass} {events more : List Event} {id : String}

/-- The events on the way from one state of a pass to another.  The blocks that chains have reached
are those at which they arrived, no rule of a statement is run again, and a chain that arrives at a
block where one has been before ends there, with a warning for text. -/
structure Observed (l : Language) (p : Pass) (events : List Event) (q : Pass) : Prop where
  visited (x : String) : x ∈ q.visited ↔ x ∈ p.visited ∨ Event.arrive x ∈ events
  once : (Event.ran events).Nodup
  fresh : ∀ x ∈ Event.ran events, x ∉ p.visited ∧ Event.arrive x ∈ events
  stops (before after : List Event) (x : String) (hsplit : events = before ++ .arrive x :: after)
    (hreached : x ∈ p.visited ∨ Event.arrive x ∈ before) :
    ∃ rest, after = .leave x (l.cycleWarning x) :: rest

namespace Observed

theorem of_eq (h : q.visited = p.visited) : Observed l p [] q where
  visited x := by simp [h]
  once := .nil
  fresh := nofun
  stops before after x hsplit := by simp at hsplit

/-- The end of a chain. -/
theorem leave (l : Language) (p : Pass) (id text : String) :
    Observed l p [.leave id text] p where
  visited x := by simp
  once := .nil
  fresh := nofun
  stops before after x hsplit := by
    have hmem : Event.arrive x ∈ [Event.leave id text] := hsplit ▸ by simp
    simp at hmem

/-- An arrival at a block where no chain has been before; the rule of a statement may be run. -/
theorem arrive (l : Language) (hfresh : id ∉ p.visited) {ran : List Event}
    (hran : ran = [] ∨ ran = [.run id]) : Observed l p (.arrive id :: ran) (p.visit id) where
  visited x := by rcases hran with rfl | rfl <;> simp [Pass.visit, or_comm]
  once := by rcases hran with rfl | rfl <;> simp
  fresh x hx := by
    have hx : x = id := by
      rcases hran with rfl | rfl
      · cases hx
      · simpa using hx
    rw [hx]
    exact ⟨hfresh, List.mem_cons_self⟩
  stops before after x hsplit hreached := by
    cases before with
    | nil =>
      obtain ⟨hx, -⟩ := List.cons.inj hsplit
      cases hx
      rcases hreached with hx | hx
      · exact absurd hx hfresh
      · cases hx
    | cons e before =>
      have hmem : Event.arrive x ∈ ran := (List.cons.inj hsplit).2 ▸ by simp
      rcases hran with rfl | rfl <;> simp at hmem

/-- An arrival at a block where a chain has been before. -/
theorem again (l : Language) (hvisited : id ∈ p.visited) :
    Observed l p [.arrive id, .leave id (l.cycleWarning id)] p where
  visited x := by
    simp only [List.mem_cons, Event.arrive.injEq, reduceCtorEq, List.not_mem_nil, or_false]
    exact ⟨.inl, fun h => h.elim (fun hx => hx) fun hx => hx ▸ hvisited⟩
  once := .nil
  fresh := nofun
  stops before after x hsplit _ := by
    cases before with
    | nil =>
      obtain ⟨hx, rfl⟩ := List.cons.inj hsplit
      cases hx
      exact ⟨[], rfl⟩
    | cons e before =>
      have hmem : Event.arrive x ∈ [Event.leave id (l.cycleWarning id)] :=
        (List.cons.inj hsplit).2 ▸ by simp
      simp at hmem

/-- One way after the other. -/
theorem append (h : Observed l p events q) (hmore : Observed l q more r) :
    Observed l p (events ++ more) r where
  visited x := by rw [hmore.visited, h.visited, List.mem_append, or_assoc]
  once := by
    rw [Event.ran_append, List.nodup_append']
    refine ⟨h.once, hmore.once, fun x hx hagain => (hmore.fresh x hagain).1 ?_⟩
    exact (h.visited x).2 (.inr (h.fresh x hx).2)
  fresh x hx := by
    rw [Event.ran_append, List.mem_append] at hx
    rw [List.mem_append]
    rcases hx with hx | hx
    · exact ⟨(h.fresh x hx).1, .inl (h.fresh x hx).2⟩
    · exact ⟨fun hp => (hmore.fresh x hx).1 ((h.visited x).2 (.inl hp)), .inr (hmore.fresh x hx).2⟩
  stops before after x hsplit hreached := by
    rcases List.append_eq_append_iff.1 hsplit with ⟨between, rfl, hmid⟩ | ⟨between, rfl, hmid⟩
    -- the arrival is on the second way
    · refine hmore.stops between after x hmid ?_
      rw [h.visited, or_assoc, ← List.mem_append]
      exact hreached
    · cases between with
      | nil =>
        rw [List.nil_append] at hmid
        refine hmore.stops [] after x hmid.symm (.inl ((h.visited x).2 ?_))
        rwa [List.append_nil]
      | cons e between =>
        obtain ⟨rfl, rfl⟩ := List.cons.inj hmid
        obtain ⟨rest, rfl⟩ := h.stops before between x rfl hreached
        exact ⟨rest ++ more, rfl⟩

end Observed

/-- Whatever the step does, what is seen of it is in order. -/
def Noted.Orderly {α : Type} (l : Language) (y : Noted Event α) : Prop :=
  ∀ p log a q log', y (p, log) = some (a, q, log') →
    ∃ events, log' = log ++ events ∧ Observed l p events q

namespace Noted.Orderly

variable {α β : Type} {y : Noted Event α}

theorem pure (l : Language) (a : α) : (Pure.pure a : Noted Event α).Orderly l := by
  intro p log b q log' hrun
  obtain ⟨rfl, rfl, rfl⟩ : a = b ∧ p = q ∧ log = log' := by
    simpa using (Option.some.inj hrun : (a, p, log) = (b, q, log'))
  exact ⟨[], (List.append_nil _).symm, .of_eq rfl⟩

theorem endless (l : Language) : (Noted.plain Walk.endless : Noted Event α).Orderly l :=
  fun _ _ _ _ _ hrun => nomatch hrun

theorem naming (l : Language) {f : Pass → String × Pass} (hf : ∀ p, (f p).2.visited = p.visited) :
    (Noted.plain (Walk.naming f)).Orderly l := by
  intro p log b q log' hrun
  obtain ⟨-, rfl, rfl⟩ : (f p).1 = b ∧ (f p).2 = q ∧ log = log' := by
    simpa using (Option.some.inj hrun : ((f p).1, (f p).2, log) = (b, q, log'))
  exact ⟨[], (List.append_nil _).symm, .of_eq (hf p)⟩

theorem bind {f : α → Noted Event β} (h : y.Orderly l) (hf : ∀ a, (f a).Orderly l) :
    (y >>= f).Orderly l := by
  intro p log b r log' hrun
  obtain ⟨⟨a, q, mid⟩, hy, hrun⟩ := Option.bind_eq_some_iff.1 hrun
  obtain ⟨events, rfl, hevents⟩ := h p log a q mid hy
  obtain ⟨more, rfl, hmore⟩ := hf a q _ b r log' hrun
  exact ⟨events ++ more, List.append_assoc .., hevents.append hmore⟩

theorem map (f : α → β) (h : y.Orderly l) : (f <$> y).Orderly l := by
  rw [map_eq_pure_bind]
  exact h.bind fun a => .pure l (f a)

theorem run {answer : Request → Noted Event String} (h : ∀ r, (answer r).Orderly l)
    (e : Emission α) : (e.run answer).Orderly l := by
  induction e with
  | done a => exact .pure l a
  | ask r resume ih => exact (h r).bind ih

theorem mapM {f : α → Noted Event β} (h : ∀ a, (f a).Orderly l) (as : List α) :
    (as.mapM f).Orderly l := by
  induction as with
  | nil => exact .pure l []
  | cons a as ih =>
    rw [List.mapM_cons]
    exact (h a).bind fun _ => ih.bind fun _ => .pure l _

end Noted.Orderly

namespace Generator

variable {g : Generator} {graph : Graph} {levels : Nat}

/-- The watched walks with so many levels are in order. -/
structure OrderlyWalks (g : Generator) (graph : Graph) (levels : Nat) : Prop where
  expression (id default : String) :
    (g.watchedExpression graph levels id default).Orderly g.language
  chain (start : Option String) : (g.watchedChain graph levels start).Orderly g.language

theorem OrderlyWalks.answer (h : OrderlyWalks g graph levels) (node : Node) (r : Request) :
    (g.notedAnswer (g.watchedExpression graph levels) (g.watchedChain graph levels) node r).Orderly
      g.language := by
  cases r with
  | value socket outer default =>
    rw [notedAnswer]
    cases node.inputs.get? socket with
    | none => exact .pure _ default
    | some child => exact (h.expression child default).bind fun _ => .pure _ _
  | body socket => exact h.chain _
  | variableName raw => exact .naming _ fun p => p.variableName_visited g.language raw
  | freshName base => exact .naming _ fun _ => rfl

/-- The text of the first block of a chain, and what is seen of it from the arrival on. -/
theorem observed_text {answer : Request → Noted Event String}
    (hanswer : ∀ r, (answer r).Orderly g.language) (hfresh : id ∉ p.visited) {log log' : List Event}
    {code : String}
    (hrun : g.watchedText answer (g.site graph id) id (p.visit id, log ++ [.arrive id]) =
      some (code, q, log')) :
    ∃ events, log' = log ++ events ∧ Observed g.language p events q := by
  -- behind the arrival, and behind the run of the rule, everything is in order
  have hrest {x : Noted Event String} (hx : x.Orderly g.language) {ran : List Event}
      (hran : ran = [] ∨ ran = [.run id])
      (h : x (p.visit id, log ++ .arrive id :: ran) = some (code, q, log')) :
      ∃ events, log' = log ++ events ∧ Observed g.language p events q := by
    obtain ⟨events, rfl, hevents⟩ := hx _ _ _ _ _ h
    exact ⟨.arrive id :: ran ++ events, List.append_assoc ..,
      (Observed.arrive _ hfresh hran).append hevents⟩
  rw [watchedText] at hrun
  cases hrule : g.rules.get? (g.site graph id).node.type with
  | none =>
    rw [hrule] at hrun
    exact hrest (.pure _ _) (.inl rfl) hrun
  | some rule =>
    rw [hrule] at hrun
    cases rule with
    | statement emit =>
      have hnote : (closeLine <$> (emit (g.site graph id)).run answer)
          (p.visit id, (log ++ [.arrive id]) ++ [.run id]) = some (code, q, log') := hrun
      rw [List.append_assoc] at hnote
      exact hrest (.map _ (.run hanswer _)) (.inr rfl) hnote
    | value emit => exact hrest (.map _ (.run hanswer _)) (.inl rfl) hrun

/-- A chain is a step between its arrival and its end. -/
theorem watchedChain_some (levels : Nat) (id : String) (p : Pass) (log : List Event) :
    g.watchedChain graph (levels + 1) (some id) (p, log) =
      (g.watchedStep graph
        (g.notedAnswer (g.watchedExpression graph levels) (g.watchedChain graph levels)
          (g.site graph id).node)
        (g.watchedChain graph levels) id (p, log ++ [.arrive id])).map fun s =>
          (s.1, s.2.1, s.2.2 ++ [.leave id s.1]) := by
  rw [watchedChain, Option.map_eq_bind]
  rfl

/-- **A chain is in order if what it goes through is.**  It stops where a chain has been before, and
elsewhere it reaches a block for the first time. -/
theorem orderly_chain (h : OrderlyWalks g graph levels) (id : String) :
    (g.watchedChain graph (levels + 1) (some id)).Orderly g.language := by
  intro p log text q log' hrun
  rw [watchedChain_some] at hrun
  obtain ⟨⟨text, q, mid⟩, hstep, hleave⟩ := Option.map_eq_some_iff.1 hrun
  cases hleave
  by_cases hvisited : id ∈ p.visited
  · rw [watchedStep_again hvisited] at hstep
    cases hstep
    exact ⟨_, List.append_assoc .., .again _ hvisited⟩
  · rw [watchedStep_fresh hvisited] at hstep
    obtain ⟨⟨code, r, behind⟩, htext, hstep⟩ := Option.bind_eq_some_iff.1 hstep
    obtain ⟨⟨rest, s, far⟩, hnext, hstep⟩ := Option.bind_eq_some_iff.1 hstep
    cases hstep
    obtain ⟨events, rfl, hevents⟩ := observed_text (h.answer _) hvisited htext
    obtain ⟨more, rfl, hmore⟩ := h.chain _ _ _ _ _ _ hnext
    refine ⟨events ++ more ++ [.leave id (code ++ rest)], ?_, (hevents.append hmore).append ?_⟩
    · simp only [List.append_assoc]
    · exact .leave _ _ id _

variable (g graph)

/-- **Whatever a walk goes through, what is seen of it is in order.** -/
theorem orderlyWalks (levels : Nat) : OrderlyWalks g graph levels := by
  induction levels with
  | zero =>
    refine ⟨fun id default => ?_, fun start => ?_⟩
    · rw [watchedExpression]
      exact .endless _
    · cases start with
      | none => exact watchedChain_none (g := g) 0 ▸ .pure _ ""
      | some id =>
        rw [watchedChain]
        exact .endless _
  | succ levels ih =>
    refine ⟨fun id default => ?_, fun start => ?_⟩
    · rw [watchedExpression]
      split
      · exact .run (ih.answer _) _
      · exact .pure _ _
    · cases start with
      | none => exact watchedChain_none (g := g) _ ▸ .pure _ ""
      | some id => exact orderly_chain ih id

theorem orderly_root (id : String) : (g.watchedRoot graph id).Orderly g.language := by
  have h := orderlyWalks g graph (Generator.levels graph)
  rw [watchedRoot]
  split
  · exact (h.expression _ _).bind fun _ => (h.chain _).bind fun _ => .pure _ _
  · exact h.chain _

variable {g graph}

/-- **The events of a program are in order**, whatever the graph is. -/
theorem observed_of_watched {roots : List String} {code : String}
    (h : g.watchedGenerate graph roots = some (code, events)) :
    ∃ q, Observed g.language .start events q := by
  rw [watchedGenerate] at h
  obtain ⟨⟨chunks, q, log⟩, hrun, hcode⟩ := Option.bind_eq_some_iff.1 h
  obtain ⟨-, rfl⟩ := Prod.mk.inj (Option.some.inj hcode)
  obtain ⟨events, rfl, hevents⟩ :=
    Noted.Orderly.mapM (orderly_root g graph) roots _ _ _ _ _ hrun
  exact ⟨q, hevents⟩

end Generator
end Generation
end VisualBlocks

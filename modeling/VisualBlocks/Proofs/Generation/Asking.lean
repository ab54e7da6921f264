import VisualBlocks.Proofs.Generation.Calls
import VisualBlocks.Proofs.Generation.Trees

/-!
# Which names are asked for

A rule asks for the name of one variable at most, which is the one that its block holds in a field,
and for counters on one base only (`Rule.Usual`).  So **whatever a walk over a graph does, the names
that it leaves in the pass are the answers to such calls** (`calls_of_roots`).

A conversation is judged by the requests in it (`Emission.Asks`), a step by the calls that it stands
for (`Walk.Calling`).  Neither says anything about the text, and the graph may be any.
-/

set_option autoImplicit false

namespace VisualBlocks
namespace Generation

/-! ## Requests -/

/-- Every request of the conversation passes the test, whatever the answers before it are. -/
inductive Emission.Asks {α : Type} (ok : Request → Prop) : Emission α → Prop
  | done (a : α) : Asks ok (.done a)
  | ask {request : Request} {resume : String → Emission α} (h : ok request)
      (hresume : ∀ answer, Asks ok (resume answer)) : Asks ok (.ask request resume)

namespace Emission.Asks

variable {α β : Type} {ok : Request → Prop} {e : Emission α}

theorem pure (a : α) : (Pure.pure a : Emission α).Asks ok := .done a

theorem bind {f : α → Emission β} (h : e.Asks ok) (hf : ∀ a, (f a).Asks ok) :
    (e >>= f).Asks ok := by
  induction h with
  | done a => exact hf a
  | ask h _ ih => exact .ask h ih

theorem map (f : α → β) (h : e.Asks ok) : (f <$> e).Asks ok := by
  rw [map_eq_pure_bind]
  exact h.bind fun _ => .pure _

theorem mapM {f : α → Emission β} (l : List α) (h : ∀ a, (f a).Asks ok) : (l.mapM f).Asks ok := by
  induction l with
  | nil => exact .pure []
  | cons a l ih =>
    rw [List.mapM_cons]
    exact (h a).bind fun _ => ih.bind fun _ => .pure _

theorem request {r : Request} (h : ok r) : (Emission.ask r .done).Asks ok := .ask h .done

end Emission.Asks

/-- The requests that the rule for a block may make: any texts, the name of the variable that the
block holds, and counters. -/
def Usual (node : Node) : Request → Prop
  | .value _ _ _ | .body _ => True
  | .variableName raw => raw = (node.fields.get? "VAR").getD "item"
  | .freshName base => base = "count"

/-- Does the rule make no other requests? -/
def Rule.Usual : Rule → Prop
  | .statement emit => ∀ s, (emit s).Asks (Generation.Usual s.node)
  | .value emit => ∀ s, (emit s).Asks (Generation.Usual s.node)

section Rules

variable {node : Node} (s : Site)

theorem asks_value (socket : String) (outer : Order) (default : String) :
    (Emission.value socket outer default).Asks (Usual node) := .request trivial

theorem asks_body (socket : String) : (s.indentedBody socket).Asks (Usual node) :=
  .bind (.request trivial) fun _ => .pure _

namespace Standard

theorem asks_binary (op : String) (order : Order) (missing : String) :
    (binary op order missing).Asks (Usual node) :=
  .bind (asks_value _ _ _) fun _ => .bind (asks_value _ _ _) fun _ => .pure _

theorem asks_assign (op socket : String) : (assign s op socket).Asks (Usual s.node) :=
  .bind (asks_value _ _ _) fun _ => .bind (.request rfl) fun _ => .pure _

theorem asks_repeatLoop (times : String) : (repeatLoop s times).Asks (Usual node) :=
  .bind (asks_body s _) fun _ => .bind (.request rfl) fun _ => .pure _

theorem asks_controlsIf : (controlsIf s).Asks (Usual node) := by
  have hbranch (n : Nat) : (branch s n).Asks (Usual node) :=
    .bind (asks_value _ _ _) fun _ => .bind (asks_body s _) fun _ => .pure _
  rw [controlsIf]
  refine .bind (.mapM _ hbranch) fun branches => ?_
  dsimp only
  split
  · exact .bind (.map _ (asks_body s _)) fun _ => .pure _
  · exact .bind (.pure _) fun _ => .pure _

theorem asks_controlsWhileUntil : (controlsWhileUntil s).Asks (Usual node) := by
  rw [controlsWhileUntil]
  have hbody (condition : String) :
      (do return braced ("while (" ++ condition ++ ")") (← s.indentedBody "DO") ++ "\n" :
        Emission String).Asks (Usual node) := .bind (asks_body s _) fun _ => .pure _
  split
  · exact .bind (.map _ (asks_value _ _ _)) hbody
  · exact .bind (asks_value _ _ _) hbody

theorem asks_logicCompare : (logicCompare s).Asks (Usual node) := by
  rw [logicCompare]
  split <;> exact asks_binary _ _ _

theorem asks_logicOperation : (logicOperation s).Asks (Usual node) := by
  rw [logicOperation]
  split <;> exact asks_binary _ _ _

theorem asks_mathArithmetic : (mathArithmetic s).Asks (Usual node) := by
  rw [mathArithmetic]
  split
  · exact asks_binary _ _ _
  · exact asks_binary _ _ _
  · exact asks_binary _ _ _
  · exact .bind (asks_value _ _ _) fun _ => .bind (asks_value _ _ _) fun _ => .pure _
  · exact asks_binary _ _ _

theorem asks_textJoin : (textJoin s).Asks (Usual node) := by
  rw [textJoin]
  split
  · exact .pure _
  · exact .bind (asks_value _ _ _) fun _ => .pure _
  · exact .bind (.mapM _ fun _ => asks_value _ _ _) fun _ => .pure _

end Standard

theorem usual_standard : ∀ entry ∈ Standard.rules, entry.2.Usual := by
  intro entry hentry
  simp only [Standard.rules, List.mem_cons, List.not_mem_nil, or_false] at hentry
  rcases hentry with rfl | rfl | rfl | rfl | rfl | rfl | rfl | rfl | rfl | rfl | rfl | rfl | rfl |
    rfl | rfl | rfl | rfl | rfl
  · exact fun s => Standard.asks_controlsIf s
  · exact fun s => .bind (asks_value _ _ _) fun _ => Standard.asks_repeatLoop s _
  · exact fun s => Standard.asks_repeatLoop s _
  · exact fun s => Standard.asks_controlsWhileUntil s
  · exact fun s => Standard.asks_logicCompare s
  · exact fun s => Standard.asks_logicOperation s
  · exact fun s => .bind (asks_value _ _ _) fun _ => .pure _
  · exact fun s => .pure _
  · exact fun s => .pure _
  · exact fun s => .bind (asks_value _ _ _) fun _ => .bind (asks_value _ _ _) fun _ =>
      .bind (asks_value _ _ _) fun _ => .pure _
  · exact fun s => .pure _
  · exact fun s => Standard.asks_mathArithmetic s
  · exact fun s => Standard.asks_assign s _ _
  · exact fun s => .pure _
  · exact fun s => Standard.asks_textJoin s
  · exact fun s => .bind (asks_value _ _ _) fun _ => .pure _
  · exact fun s => .bind (.request rfl) fun _ => .pure _
  · exact fun s => Standard.asks_assign s _ _

theorem usual_automation : ∀ entry ∈ Automation.rules, entry.2.Usual := by
  have hstub (method : String) (sockets : List String) : (Automation.stub method sockets).Usual :=
    fun s => .bind (.mapM _ fun _ => asks_value _ _ _) fun _ => .pure _
  have hvalue (method : String) (sockets : List String) :
      (Automation.valueStub method sockets).Usual :=
    fun s => .bind (.mapM _ fun _ => asks_value _ _ _) fun _ => .pure _
  intro entry hentry
  simp only [Automation.rules, List.mem_cons, List.not_mem_nil, or_false] at hentry
  rcases hentry with rfl | rfl | rfl | rfl | rfl | rfl | rfl | rfl | rfl
  · exact hstub _ _
  · exact hstub _ _
  · exact hstub _ _
  · exact hstub _ _
  · exact hvalue _ _
  · exact fun s => .pure _
  · exact fun s => .bind (asks_value _ _ _) fun _ => .bind (asks_body s _) fun _ => .pure _
  · exact hstub _ _
  · exact hvalue _ _

theorem usual_canvas : ∀ entry ∈ Canvas.rules, entry.2.Usual := by
  intro entry hentry
  rw [List.mem_singleton.1 hentry]
  exact fun s => .bind (.mapM _ fun _ => asks_value _ _ _) fun _ => .pure _

/-- **No rule of a vocabulary asks for any other name.** -/
theorem rule_usual (v : Vocabulary) (registry : Registry) {type : String} {rule : Rule}
    (h : (v.generator registry).rules.get? type = some rule) : rule.Usual := by
  rcases List.mem_append.1 (rule_mem v registry h) with hmem | hmem
  · exact usual_standard _ hmem
  · rcases List.mem_append.1 hmem with hmem | hmem
    · exact usual_automation _ hmem
    · exact usual_canvas _ hmem

end Rules

/-! ## Walks -/

/-- Wherever the step comes to an end, the names in the pass are the answers to some calls of the
given kind. -/
def Walk.Calling {α : Type} (l : Language) (allowed : Call → Prop) (x : Walk α) : Prop :=
  ∀ p a q, x p = some (a, q) → ∃ calls, (∀ c ∈ calls, allowed c) ∧ q.SameNames (p.after l calls)

namespace Walk.Calling

variable {α β : Type} {l : Language} {allowed : Call → Prop} {x : Walk α}

theorem still (h : ∀ p a q, x p = some (a, q) → q.SameNames p) : x.Calling l allowed :=
  fun p a q hx => ⟨[], nofun, h p a q hx⟩

theorem pure (a : α) : (Pure.pure a : Walk α).Calling l allowed := by
  refine .still fun p b q h => ?_
  obtain ⟨-, rfl⟩ := Prod.mk.inj (Option.some.inj h)
  exact ⟨rfl, rfl⟩

theorem endless : (Walk.endless : Walk α).Calling l allowed := fun _ _ _ h => nomatch h

theorem bind {f : α → Walk β} (h : x.Calling l allowed) (hf : ∀ a, (f a).Calling l allowed) :
    (x >>= f).Calling l allowed := by
  intro p b r hrun
  have hbind : (x >>= f) p = (x p).bind fun s => f s.1 s.2 := rfl
  rw [hbind] at hrun
  obtain ⟨⟨a, q⟩, hx, hrest⟩ := Option.bind_eq_some_iff.1 hrun
  obtain ⟨cs, hcs, hq⟩ := h p a q hx
  obtain ⟨ds, hds, hr⟩ := hf a q b r hrest
  refine ⟨cs ++ ds, List.forall_mem_append.2 ⟨hcs, hds⟩, ?_⟩
  rw [Pass.after_append]
  exact hr.trans (hq.after l ds)

theorem map (f : α → β) (h : x.Calling l allowed) : (f <$> x).Calling l allowed := by
  rw [map_eq_pure_bind]
  exact h.bind fun a => .pure (f a)

theorem call (c : Call) (h : allowed c) :
    (Walk.naming fun p => p.call l c).Calling l allowed := by
  intro p a q hrun
  obtain ⟨-, rfl⟩ := Prod.mk.inj (Option.some.inj hrun)
  exact ⟨[c], List.forall_mem_singleton.2 h, rfl, rfl⟩

theorem mapM {f : α → Walk β} (as : List α) (h : ∀ a, (f a).Calling l allowed) :
    (as.mapM f).Calling l allowed := by
  induction as with
  | nil => exact .pure []
  | cons a as ih =>
    rw [List.mapM_cons]
    exact (h a).bind fun _ => ih.bind fun _ => .pure _

/-- A conversation stands for the calls that its requests stand for. -/
theorem run {answer : Request → Walk String} {ok : Request → Prop} {e : Emission α}
    (he : e.Asks ok) (h : ∀ r, ok r → (answer r).Calling l allowed) :
    (e.run answer).Calling l allowed := by
  induction he with
  | done a => exact .pure a
  | ask hr _ ih => exact (h _ hr).bind ih

end Walk.Calling

/-- The calls that come up in a graph: counters on one base, and the variables that its blocks hold
in their fields. -/
def CallsOf (graph : Graph) : Call → Prop
  | .variableName raw =>
    raw = "item" ∨ ∃ id node, graph.node? id = some node ∧ node.fields.get? "VAR" = some raw
  | .freshName base => base = "count"

theorem callsOf_site (g : Generator) (graph : Graph) (id : String) :
    CallsOf graph (.variableName (((g.site graph id).node.fields.get? "VAR").getD "item")) := by
  rw [Generator.site]
  cases hnode : graph.node? id with
  | none => exact .inl rfl
  | some node =>
    rw [Option.getD_some]
    cases hfield : node.fields.get? "VAR" with
    | none => exact .inl rfl
    | some raw => exact .inr ⟨id, node, hnode, hfield⟩

section Walks

variable (v : Vocabulary) (registry : Registry) (graph : Graph)

/-- A step with the generator stands for calls that come up in the graph. -/
abbrev Calling {α : Type} (x : Walk α) : Prop :=
  x.Calling (v.generator registry).language (CallsOf graph)

/-- All that a walk of so many levels does stands for calls that come up in the graph. -/
structure CallingWalks (levels : Nat) : Prop where
  expression (id default : String) :
    Calling v registry graph ((v.generator registry).expression graph levels id default)
  chain (start : Option String) :
    Calling v registry graph ((v.generator registry).chain graph levels start)

variable {v registry graph} {levels : Nat}

theorem calling_answer (h : CallingWalks v registry graph levels) (id : String) (r : Request)
    (hr : Usual ((v.generator registry).site graph id).node r) :
    Calling v registry graph ((v.generator registry).answer
      ((v.generator registry).expression graph levels) ((v.generator registry).chain graph levels)
      ((v.generator registry).site graph id).node r) := by
  cases r with
  | value socket outer default =>
    rw [Generator.answer]
    split
    · exact .pure _
    · exact (h.expression _ _).bind fun _ => .pure _
  | body socket => exact h.chain _
  | variableName raw =>
    have hraw : raw = _ := hr
    exact .call (.variableName raw) (hraw ▸ callsOf_site _ graph id)
  | freshName base => exact .call (.freshName base) hr

theorem calling_expression (h : CallingWalks v registry graph levels) (id default : String) :
    Calling v registry graph ((v.generator registry).expression graph (levels + 1) id default) := by
  rw [Generator.expression]
  split
  · next emit hrule => exact .run (rule_usual v registry hrule _) (calling_answer h id)
  · exact .pure _

theorem calling_ownText (h : CallingWalks v registry graph levels) (id : String) :
    Calling v registry graph (ownText (v.generator registry) graph levels id) := by
  rw [ownText]
  split
  · next emit hrule => exact .map _ (.run (rule_usual v registry hrule _) (calling_answer h id))
  · next emit hrule => exact .map _ (.run (rule_usual v registry hrule _) (calling_answer h id))
  · exact .pure _

theorem calling_chain (h : CallingWalks v registry graph levels) (id : String) :
    Calling v registry graph ((v.generator registry).chain graph (levels + 1) (some id)) := by
  intro p code q hrun
  by_cases hvisited : id ∈ p.visited
  · rw [chain_again _ _ hvisited] at hrun
    exact Walk.Calling.pure _ p code q hrun
  · rw [chain_fresh _ _ hvisited] at hrun
    have hrest : Calling v registry graph (do
        let code ← ownText (v.generator registry) graph levels id
        return code ++ (← (v.generator registry).chain graph levels
          ((v.generator registry).site graph id).node.next) : Walk String) :=
      (calling_ownText h id).bind fun _ => (h.chain _).bind fun _ => .pure _
    obtain ⟨calls, hcalls, hq⟩ := hrest _ code q hrun
    have hvisit : (p.visit id).SameNames p := ⟨rfl, rfl⟩
    exact ⟨calls, hcalls, hq.trans (hvisit.after _ calls)⟩

variable (v registry graph)

/-- **All that a walk does stands for calls that come up in the graph.** -/
theorem callingWalks (levels : Nat) : CallingWalks v registry graph levels := by
  have hnone (levels : Nat) :
      Calling v registry graph ((v.generator registry).chain graph levels none) := by
    rw [chain_none]
    exact .pure _
  induction levels with
  | zero =>
    refine ⟨fun id default => ?_, fun start => ?_⟩
    · rw [Generator.expression]
      exact .endless
    · cases start with
      | none => exact hnone 0
      | some id =>
        rw [Generator.chain]
        exact .endless
  | succ levels ih =>
    refine ⟨calling_expression ih, fun start => ?_⟩
    cases start with
    | none => exact hnone _
    | some id => exact calling_chain ih id

/-- **The names that a generated program has are the answers to calls that come up in the graph.** -/
theorem calls_of_roots {roots : List String} {chunks : List String} {pass : Pass}
    (hrun : roots.mapM ((v.generator registry).root graph) .start = some (chunks, pass)) :
    ∃ calls, (∀ c ∈ calls, CallsOf graph c) ∧
      pass.SameNames (Pass.start.after (v.generator registry).language calls) := by
  have hwalks := callingWalks v registry graph (Generator.levels graph)
  have hroot (id : String) : Calling v registry graph ((v.generator registry).root graph id) := by
    rw [Generator.root]
    split
    · exact (hwalks.expression _ _).bind fun _ => (hwalks.chain _).bind fun _ => .pure _
    · exact hwalks.chain _
  exact Walk.Calling.mapM roots hroot .start chunks pass hrun

end Walks

end Generation
end VisualBlocks

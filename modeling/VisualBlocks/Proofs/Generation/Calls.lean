import VisualBlocks.Proofs.Generation.Naming

/-!
# What a pass is asked for names

A pass hands out names for variables and for counters, in whatever order it is asked for them.
`Pass.answers` lists the calls with the names that they get, and `Pass.after` is the pass that they
leave.

* **No two counters have the same name** (`nodup_counterNames`).
* **A counter does not have the name of a variable that has been asked for before it**
  (`ne_counter_of_seen`), neither then nor later.  A variable that comes up after the counter gets
  its name without a look at the counters, and only such a variable can share one
  (`late_of_counter`).
* What a pass holds in the end are the answers that it gave (`counters_after`, `known_after`).
-/

set_option autoImplicit false

namespace VisualBlocks
namespace Generation

/-- A call for a name. -/
inductive Call where
  | variableName (raw : String)
  | freshName (base : String)
deriving Repr, DecidableEq

namespace Pass

variable {l : Language} {p : Pass} {c : Call} {cs ds : List Call}

/-- Answers a call. -/
def call (l : Language) (p : Pass) : Call → String × Pass
  | .variableName raw => p.variableName l raw
  | .freshName base => p.freshName l base

/-- The pass after some calls. -/
def after (l : Language) (p : Pass) : List Call → Pass
  | [] => p
  | c :: cs => (p.call l c).2.after l cs

/-- Some calls and the names that they get. -/
def answers (l : Language) (p : Pass) : List Call → List (Call × String)
  | [] => []
  | c :: cs => (c, (p.call l c).1) :: (p.call l c).2.answers l cs

theorem after_append (cs ds : List Call) : p.after l (cs ++ ds) = (p.after l cs).after l ds := by
  induction cs generalizing p with
  | nil => rfl
  | cons c cs ih => exact ih

/-! ## Variables -/

theorem call_keeps (l : Language) (c : Call) {raw name : String}
    (h : p.known.lookup raw = some name) : (p.call l c).2.known.lookup raw = some name := by
  cases c with
  | variableName other => exact variableName_keeps l other h
  | freshName base => exact h

theorem after_keeps (l : Language) (cs : List Call) {raw name : String}
    (h : p.known.lookup raw = some name) : (p.after l cs).known.lookup raw = some name := by
  induction cs generalizing p with
  | nil => exact h
  | cons c cs ih => exact ih (call_keeps l c h)

/-- **A variable has one name**, which is the one that the pass knows in the end. -/
theorem lookup_of_mem_answers {raw name : String} (h : (.variableName raw, name) ∈ p.answers l cs) :
    (p.after l cs).known.lookup raw = some name := by
  induction cs generalizing p with
  | nil => cases h
  | cons c cs ih =>
    rcases List.mem_cons.1 h with heq | h
    · obtain ⟨rfl, rfl⟩ := Prod.mk.inj heq
      exact after_keeps l cs (p.variableName_known l raw)
    · exact ih h

theorem exists_answer (l : Language) {p : Pass} (h : c ∈ cs) : ∃ name, (c, name) ∈ p.answers l cs := by
  induction cs generalizing p with
  | nil => cases h
  | cons d cs ih =>
    rcases List.mem_cons.1 h with rfl | h
    · exact ⟨_, List.mem_cons_self⟩
    · obtain ⟨name, hname⟩ := ih (p := (p.call l d).2) h
      exact ⟨name, List.mem_cons_of_mem _ hname⟩

/-! ## Counters -/

/-- The names that counters get. -/
def counterNames : List (Call × String) → List String
  | [] => []
  | (.variableName _, _) :: rest => counterNames rest
  | (.freshName _, name) :: rest => name :: counterNames rest

/-- A counter has no name that is given away. -/
theorem freshName_not_mem (p : Pass) (l : Language) (base : String) :
    (p.freshName l base).1 ∉ p.counters ++ p.names := Text.free_numbered_not_mem _ _

/-- What counters are called in the end, the last one first. -/
theorem counters_after (l : Language) (p : Pass) (cs : List Call) :
    (p.after l cs).counters = (counterNames (p.answers l cs)).reverse ++ p.counters := by
  induction cs generalizing p with
  | nil => rfl
  | cons c cs ih =>
    rw [after, ih, answers]
    cases c with
    | variableName raw => rw [counterNames, call, variableName_counters]
    | freshName base =>
      rw [counterNames, List.reverse_cons, List.append_assoc]
      rfl

/-- **No two counters have the same name.** -/
theorem nodup_counterNames (l : Language) (p : Pass) (cs : List Call) :
    (counterNames (p.answers l cs)).Nodup ∧
      ∀ name ∈ counterNames (p.answers l cs), name ∉ p.counters := by
  induction cs generalizing p with
  | nil => exact ⟨.nil, nofun⟩
  | cons c cs ih =>
    obtain ⟨hnodup, hapart⟩ := ih (p.call l c).2
    cases c with
    | variableName raw =>
      refine ⟨hnodup, fun name hname => ?_⟩
      have hnew := hapart name hname
      rwa [call, variableName_counters] at hnew
    | freshName base =>
      rw [answers, counterNames, List.nodup_cons]
      refine ⟨⟨fun hmem => hapart _ hmem List.mem_cons_self, hnodup⟩, ?_⟩
      rw [List.forall_mem_cons]
      refine ⟨fun hmem => p.freshName_not_mem l base (List.mem_append_left _ hmem), ?_⟩
      exact fun name hname hmem => hapart name hname (List.mem_cons_of_mem _ hmem)

/-- **A counter does not have the name of a variable that has been asked for before it**, whenever
the name is asked for again. -/
theorem ne_counter_of_seen (l : Language) (p : Pass) {before later : List Call} {base raw x : String}
    (hseen : .variableName raw ∈ before)
    (hx : (.variableName raw, x) ∈ p.answers l (before ++ .freshName base :: later)) :
    x ≠ ((p.after l before).freshName l base).1 := by
  obtain ⟨name, hname⟩ := exists_answer l (p := p) hseen
  have hlookup := lookup_of_mem_answers hname
  -- the variable keeps the name that it has when the counter is called
  have hlate := after_keeps l (.freshName base :: later) hlookup
  rw [← after_append, lookup_of_mem_answers hx] at hlate
  obtain rfl := Option.some.inj hlate
  have hmem : x ∈ (p.after l before).names :=
    List.mem_map.2 ⟨(raw, x), Table.mem_of_lookup hlookup, rfl⟩
  rintro rfl
  exact freshName_not_mem _ l base (List.mem_append_right _ hmem)

/-! ## What is behind a name -/

theorem call_of_mem_answers {name : String} (h : (c, name) ∈ p.answers l cs) : c ∈ cs := by
  induction cs generalizing p with
  | nil => cases h
  | cons d cs ih =>
    rcases List.mem_cons.1 h with heq | h
    · exact (Prod.mk.inj heq).1 ▸ List.mem_cons_self
    · exact List.mem_cons_of_mem _ (ih h)

/-- A variable that a pass knows has got its name as an answer, and the name is a numbered one. -/
theorem known_after (l : Language) (p : Pass) (cs : List Call) {raw name : String}
    (h : (raw, name) ∈ (p.after l cs).known) :
    (raw, name) ∈ p.known ∨ (.variableName raw, name) ∈ p.answers l cs ∧
      ∃ n, name = Text.numbered (safeIdentifier l.reserved raw) n := by
  induction cs generalizing p with
  | nil => exact .inl h
  | cons c cs ih =>
    rcases ih (p.call l c).2 h with hold | ⟨hmem, hn⟩
    · cases c with
      | freshName base => exact .inl hold
      | variableName other =>
        rw [call, variableName] at hold
        split at hold
        · exact .inl hold
        · next hnew =>
          rcases List.mem_append.1 hold with hold | hlast
          · exact .inl hold
          · obtain ⟨rfl, rfl⟩ := Prod.mk.inj (List.mem_singleton.1 hlast)
            refine .inr ⟨?_, free_eq _ _ _⟩
            rw [answers, call, variableName, hnew]
            exact List.mem_cons_self
    · exact .inr ⟨List.mem_cons_of_mem _ hmem, hn⟩

/-- The name of a counter is the answer to some call. -/
theorem exists_call {name : String} (h : name ∈ counterNames (p.answers l cs)) :
    ∃ before base later, cs = before ++ .freshName base :: later ∧
      name = ((p.after l before).freshName l base).1 := by
  induction cs generalizing p with
  | nil => cases h
  | cons c cs ih =>
    have hlater (h : name ∈ counterNames ((p.call l c).2.answers l cs)) :
        ∃ before base later, c :: cs = before ++ .freshName base :: later ∧
          name = ((p.after l before).freshName l base).1 := by
      obtain ⟨before, base, later, rfl, hname⟩ := ih h
      exact ⟨c :: before, base, later, rfl, hname⟩
    cases c with
    | variableName raw => exact hlater h
    | freshName base =>
      rcases List.mem_cons.1 h with rfl | h
      · exact ⟨[], base, cs, rfl, rfl⟩
      · exact hlater h

/-- A variable has the name of a counter and comes up only after the call for the counter. -/
structure Late (l : Language) (p : Pass) (cs : List Call) (raw name : String) : Prop where
  answered : (.variableName raw, name) ∈ p.answers l cs
  order : ∃ before base later, cs = before ++ .freshName base :: later ∧
    name = ((p.after l before).freshName l base).1 ∧ .variableName raw ∉ before

/-- **A variable with the name of a counter is late.** -/
theorem late_of_counter {raw name : String} (hcounter : name ∈ counterNames (p.answers l cs))
    (hanswer : (.variableName raw, name) ∈ p.answers l cs) : Late l p cs raw name := by
  obtain ⟨before, base, later, rfl, hname⟩ := exists_call hcounter
  refine ⟨hanswer, before, base, later, rfl, hname, fun hseen => ?_⟩
  exact ne_counter_of_seen l p hseen hanswer hname

/-! ## Passes with the same names -/

/-- Only what it knows and its counters matter for the names that a pass hands out. -/
structure SameNames (p q : Pass) : Prop where
  known : p.known = q.known
  counters : p.counters = q.counters

variable {q r : Pass}

theorem SameNames.trans (h : p.SameNames q) (h' : q.SameNames r) : p.SameNames r :=
  ⟨h.known.trans h'.known, h.counters.trans h'.counters⟩

theorem SameNames.call (h : p.SameNames q) (l : Language) (c : Call) :
    (p.call l c).2.SameNames (q.call l c).2 := by
  obtain ⟨known, counters, visited⟩ := p
  obtain ⟨known', counters', visited'⟩ := q
  obtain ⟨rfl, rfl⟩ := h
  cases c with
  | freshName base => exact ⟨rfl, rfl⟩
  | variableName raw =>
    rw [Pass.call, Pass.call, variableName, variableName]
    dsimp only
    cases known.lookup raw <;> exact ⟨rfl, rfl⟩

theorem SameNames.after (h : p.SameNames q) (l : Language) (cs : List Call) :
    (p.after l cs).SameNames (q.after l cs) := by
  induction cs generalizing p q with
  | nil => exact h
  | cons c cs ih => exact ih (h.call l c)

end Pass
end Generation
end VisualBlocks

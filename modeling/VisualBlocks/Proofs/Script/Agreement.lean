import VisualBlocks.Proofs.Script.Compilation
import VisualBlocks.Proofs.Script.Stepping

/-!
# Runs and evaluations agree

The instructions of a program are executed by `Machine.run`, which stops after a bounded number of
them.  A run comes to an end if and only if the evaluation of the program does, and then both leave
the same behind (`Program.code_preserves_meaning`).

* An evaluation that ends is followed by the machine (`Runs.ends`), and a machine that has come to
  an end does not come to another one with a larger bound (`run_stable`).
* `runs_of_halts`: where the code of statements comes to an end the evaluation does.  The induction
  is on the number of instructions that are left, and on the statements where none is executed.
-/

set_option autoImplicit false

namespace VisualBlocks
namespace Script

variable {σ : Type} {host : Host σ} {C : Code}

/-! ## Bounded runs -/

theorem run_of_isDone {m : Machine} {s : σ} (limit : Nat) (h : m.isDone = true) :
    m.run host (limit + 1) s = (m, s, .done) := by
  rw [Machine.run, Machine.step_of_isDone h]

theorem not_isDone_of_moves {x y : Point σ} (h : Moves host C x y) :
    (x.machine C 0).isDone = false := by
  cases hdone : (x.machine C 0).isDone with
  | false => rfl
  | true =>
    have hstep := h 0
    rw [Machine.step_of_isDone hdone] at hstep
    exact absurd (congrArg (fun r => r.1.steps) hstep) Nat.zero_ne_one

theorem run_of_moves {x y : Point σ} (h : Moves host C x y) (n limit : Nat) :
    (x.machine C n).run host (limit + 2) x.host =
      (y.machine C (n + 1)).run host (limit + 1) y.host := by
  rw [Machine.run, h n]
  cases hdone : (y.machine C 0).isDone with
  | true =>
    have hdone' : (y.machine C (n + 1)).isDone = true := hdone
    rw [Point.status, if_pos hdone, run_of_isDone limit hdone']
  | false =>
    rw [Point.status, hdone]
    rfl

theorem run_of_leads {x y : Point σ} (h : Leads host C x y) (n : Nat) :
    ∃ k n', ∀ limit, (x.machine C n).run host (limit + k + 1) x.host =
      (y.machine C n').run host (limit + 1) y.host := by
  induction h using Relation.ReflTransGen.head_induction_on generalizing n with
  | refl => exact ⟨0, n, fun limit => rfl⟩
  | head hmove _ ih =>
    obtain ⟨k, n', hk⟩ := ih (n + 1)
    exact ⟨k + 1, n', fun limit => (run_of_moves hmove n (limit + k)).trans (hk limit)⟩

/-- A run that has come to an end does not go on. -/
theorem run_stable {m m' : Machine} {s s' : σ} {limit limit' : Nat} {r : RunEnd}
    (h : m.run host limit s = (m', s', r)) (hr : r ≠ .limit) (hle : limit ≤ limit') :
    m.run host limit' s = (m', s', r) := by
  induction limit generalizing limit' m s with
  | zero =>
    cases h
    exact absurd rfl hr
  | succ limit ih =>
    obtain ⟨limit', rfl⟩ : ∃ k, limit' = k + 1 := ⟨limit' - 1, by omega⟩
    rw [Machine.run] at h ⊢
    rcases hstep : m.step host s with ⟨u, t, e | _ | _⟩ <;> rw [hstep] at h
    · exact h
    · exact ih h (by omega)
    · exact h

/-! ## From runs to evaluations -/

variable (host C) in
/-- A run that begins at `x` has come to an end after `k + 1` instructions. -/
def Halts (k : Nat) (x : Point σ) : Prop :=
  ∃ n, ((x.machine C n).run host (k + 1) x.host).2.2 ≠ .limit

namespace Halts

variable {k : Nat} {x y : Point σ}

theorem of_moves (hk : Halts host C (k + 1) x) (h : Moves host C x y) : Halts host C k y := by
  obtain ⟨n, hn⟩ := hk
  rw [run_of_moves h] at hn
  exact ⟨n + 1, hn⟩

theorem isDone_of_moves (hk : Halts host C 0 x) (h : Moves host C x y) :
    (y.machine C 0).isDone = true := by
  obtain ⟨n, hn⟩ := hk
  rw [Machine.run, h n, Point.status] at hn
  cases hdone : (y.machine C 0).isDone with
  | true => rfl
  | false =>
    rw [hdone] at hn
    exact absurd rfl hn

theorem of_leads (hk : Halts host C k x) (h : Leads host C x y) : ∃ m ≤ k, Halts host C m y := by
  induction h with
  | refl => exact ⟨k, Nat.le_refl k, hk⟩
  | tail _ hmove ih =>
    obtain ⟨m, hm, hy⟩ := ih
    cases m with
    | zero => exact ⟨0, hm, 0, by
        rw [run_of_isDone 0 (hy.isDone_of_moves hmove)]
        exact RunEnd.noConfusion⟩
    | succ m => exact ⟨m, Nat.le_of_succ_le hm, hy.of_moves hmove⟩

/-- Coming back to the same place takes an instruction. -/
theorem of_round {z : Point σ} (hk : Halts host C k x) (h : Leads host C x y)
    (hback : Moves host C y z) (hip : z.ip = x.ip) : ∃ m < k, Halts host C m z := by
  have hx : (x.machine C 0).isDone = false := by
    rcases h.cases_head with rfl | ⟨z, hmove, -⟩
    · exact not_isDone_of_moves hback
    · exact not_isDone_of_moves hmove
  obtain ⟨m, hm, hy⟩ := hk.of_leads h
  cases m with
  | succ m => exact ⟨m, hm, hy.of_moves hback⟩
  | zero =>
    have hz := hy.isDone_of_moves hback
    dsimp only [Machine.isDone, Point.machine] at hx hz
    rw [hip, hx] at hz
    exact absurd hz Bool.false_ne_true

end Halts

/-! The body that is chosen and the round of a loop are smaller than the statement. -/

theorem chosen_mem {globals : Table Value} {otherwise body : List Statement}
    {branches : List (Expr × List Statement)} {s t : σ}
    (h : chosen host globals otherwise branches s = (.ok body, t)) :
    body = otherwise ∨ ∃ condition, (condition, body) ∈ branches := by
  induction branches generalizing s with
  | nil =>
    cases h
    exact .inl rfl
  | cons branch rest ih =>
    obtain ⟨condition, first⟩ := branch
    rw [chosen, Evaluation.bind_apply] at h
    rcases hc : condition.eval host globals s with ⟨e | v, u⟩ <;> rw [hc] at h
    · cases h
    · cases hv : v.truthy <;> dsimp only at h <;> rw [hv] at h
      · rcases ih h with hbody | ⟨c, hmem⟩
        · exact .inl hbody
        · exact .inr ⟨c, List.mem_cons_of_mem _ hmem⟩
      · cases h
        exact .inr ⟨condition, List.mem_cons_self⟩

theorem sizeOf_chosen_lt {pos : Position} {globals : Table Value} {otherwise body : List Statement}
    {branches : List (Expr × List Statement)} {s t : σ}
    (h : chosen host globals otherwise branches s = (.ok body, t)) :
    sizeOf body < sizeOf (Statement.ifElse pos branches otherwise) := by
  rw [Statement.ifElse.sizeOf_spec]
  rcases chosen_mem h with rfl | ⟨condition, hmem⟩
  · omega
  · have hlt := List.sizeOf_lt_of_mem hmem
    rw [Prod.mk.sizeOf_spec] at hlt
    omega

theorem sizeOf_append (ss ts : List Statement) :
    sizeOf (ss ++ ts) + 1 = sizeOf ss + sizeOf ts := by
  induction ss with
  | nil => exact Nat.add_comm _ _
  | cons s ss ih =>
    rw [List.cons_append, List.cons.sizeOf_spec, List.cons.sizeOf_spec]
    omega

theorem sizeOf_pos (st : Statement) : 0 < sizeOf st := by
  cases st
  all_goals
    simp only [Statement.declare.sizeOf_spec, Statement.assign.sizeOf_spec,
      Statement.expr.sizeOf_spec, Statement.ifElse.sizeOf_spec, Statement.whileLoop.sizeOf_spec,
      Statement.forLoop.sizeOf_spec]
    omega

theorem sizeOf_round_lt {st : Statement} {condition : Option Expr} {round : List Statement}
    (h : st.loop? = some (condition, round)) : sizeOf round < sizeOf st := by
  cases st with
  | whileLoop pos condition body =>
    cases h
    rw [Statement.whileLoop.sizeOf_spec]
    omega
  | forLoop pos init condition update body =>
    cases init with
    | some first => cases h
    | none =>
      cases h
      have happend := sizeOf_append body update.toList
      rw [Statement.forLoop.sizeOf_spec]
      cases update with
      | none =>
        rw [Option.toList_none] at happend ⊢
        rw [List.nil.sizeOf_spec] at happend
        omega
      | some last =>
        rw [Option.toList_some] at happend ⊢
        rw [List.cons.sizeOf_spec, List.nil.sizeOf_spec] at happend
        rw [Option.some.sizeOf_spec]
        omega
  | declare pos names => cases h
  | assign pos name op value => cases h
  | expr pos value => cases h
  | ifElse pos branches otherwise => cases h

variable (host C) in
/-- If the code of `ss` comes to an end after `k + 1` instructions, wherever it stands, the
statements end. -/
def Followed (k : Nat) (ss : List Statement) : Prop :=
  ∀ (place : Nat) (stack : List Value) (w : World σ), Installed C place (bodyCode place ss) →
    Halts host C k (w.point place stack) → ∃ r, Runs host ss w r

section Followed

variable {k : Nat} {st : Statement} {rest : List Statement}
  (smaller : ∀ m ss, m ≤ k → sizeOf ss < sizeOf (st :: rest) → Followed host C m ss)

include smaller

theorem Followed.of_effect (he : ∀ w : World σ, ∃ r, st.effect? host w = some r) :
    Followed host C k (st :: rest) := by
  intro place stack w hc hk
  rw [bodyCode] at hc
  obtain ⟨⟨w', _ | e⟩, hr⟩ := he w
  · obtain ⟨m, hm, hrest⟩ := hk.of_leads (effect_arrives stack hc.left hr)
    have hsize : sizeOf rest < sizeOf (st :: rest) := by
      rw [List.cons.sizeOf_spec]
      omega
    obtain ⟨r, hruns⟩ := smaller m rest hm hsize _ stack w' hc.right hrest
    exact ⟨r, .effect hr hruns⟩
  · exact ⟨_, .effectFault hr⟩

theorem Followed.of_branches {pos : Position} {branches : List (Expr × List Statement)}
    {otherwise : List Statement} (hst : st = .ifElse pos branches otherwise) :
    Followed host C k (st :: rest) := by
  intro place stack w hc hk
  rw [bodyCode] at hc
  subst hst
  rcases hchosen : chosen host w.globals otherwise branches w.host with ⟨e | body, t⟩
  · exact ⟨_, .choiceFault hchosen⟩
  have hsize : sizeOf body < sizeOf (Statement.ifElse pos branches otherwise) :=
    sizeOf_chosen_lt hchosen
  rw [List.cons.sizeOf_spec] at smaller
  obtain ⟨start, hstart, hinstalled, hexit⟩ := branch_leads stack hc.left hchosen
  obtain ⟨m, hm, hbody⟩ := hk.of_leads hstart
  obtain ⟨⟨w', _ | e⟩, hr⟩ :=
    smaller m body hm (by omega) start stack ⟨w.globals, t⟩ hinstalled hbody
  · have hends : Leads host C _ _ := .trans (hr.ends start stack hinstalled) (hexit _)
    obtain ⟨l, hl, hrest⟩ := hbody.of_leads hends
    obtain ⟨r, hruns⟩ := smaller l rest (Nat.le_trans hl hm) (by omega) _ stack w' hc.right hrest
    exact ⟨r, .branch hchosen hr hruns⟩
  · exact ⟨_, .branchFault hchosen hr⟩

/-- A loop that goes on is met again with fewer instructions left, since the jump back is one. -/
theorem Followed.of_loop {condition : Option Expr} {round : List Statement}
    (hs : st.loop? = some (condition, round))
    (again : ∀ m < k, Followed host C m (st :: rest)) : Followed host C k (st :: rest) := by
  intro place stack w hc hk
  have hcode := hc
  rw [bodyCode] at hcode
  rw [List.cons.sizeOf_spec] at smaller
  obtain ⟨first, pos, hinstalled, hback, hdelivers⟩ := goesOn_delivers stack hs hcode.left
  rcases hgoes : goesOn host w.globals condition w.host with ⟨e | _ | _, t⟩ <;>
    rw [hgoes] at hdelivers
  · exact ⟨_, .conditionFault hs hgoes⟩
  · obtain ⟨m, hm, hrest⟩ := hk.of_leads hdelivers
    obtain ⟨r, hr⟩ := smaller m rest hm (by omega) _ stack ⟨w.globals, t⟩ hcode.right hrest
    exact ⟨r, .leaves hs hgoes hr⟩
  · have hsize := sizeOf_round_lt hs
    obtain ⟨m, hm, hround⟩ := hk.of_leads hdelivers
    obtain ⟨⟨w', _ | e⟩, hr⟩ :=
      smaller m round hm (by omega) first stack ⟨w.globals, t⟩ hinstalled hround
    · have hends : Leads host C _ _ := .trans hdelivers (hr.ends first stack hinstalled)
      obtain ⟨l, hl, hagain⟩ := hk.of_round hends (moves_jump hback) rfl
      obtain ⟨r, hruns⟩ := again l hl place stack w' hc hagain
      exact ⟨r, .again hs hgoes hr hruns⟩
    · exact ⟨_, .roundFault hs hgoes hr⟩

theorem Followed.of_init {pos : Position} {first : Statement} {condition : Option Expr}
    {update : Option Statement} {body : List Statement}
    (hst : st = .forLoop pos (some first) condition update body) :
    Followed host C k (st :: rest) := by
  intro place stack w hc hk
  subst hst
  rw [bodyCode_init] at hc
  simp only [List.cons.sizeOf_spec, Statement.forLoop.sizeOf_spec, Option.some.sizeOf_spec]
    at smaller
  have hfirst : Followed host C k [first] := by
    refine smaller k [first] (Nat.le_refl k) ?_
    simp only [List.cons.sizeOf_spec, List.nil.sizeOf_spec]
    omega
  obtain ⟨⟨w', _ | e⟩, hr⟩ := hfirst place stack w hc.left hk
  · obtain ⟨m, hm, hloop⟩ := hk.of_leads (hr.ends place stack hc.left)
    have hpos := sizeOf_pos first
    have hagain : Followed host C m (.forLoop pos none condition update body :: rest) := by
      refine smaller m _ hm ?_
      simp only [List.cons.sizeOf_spec, Statement.forLoop.sizeOf_spec, Option.none.sizeOf_spec]
      omega
    obtain ⟨r, hruns⟩ := hagain _ stack w' hc.right hloop
    exact ⟨r, .init hr hruns⟩
  · exact ⟨_, .initFault hr⟩

end Followed

/-- **Where the code of statements comes to an end the statements do.** -/
theorem runs_of_halts (k : Nat) (ss : List Statement) : Followed host C k ss := by
  induction k using Nat.strongRecOn generalizing ss with
  | ind k ihk =>
    induction hn : sizeOf ss using Nat.strongRecOn generalizing ss with
    | ind n ihn =>
      subst hn
      have smaller (m : Nat) (ss' : List Statement) (hm : m ≤ k) (hlt : sizeOf ss' < sizeOf ss) :
          Followed host C m ss' := by
        rcases Nat.lt_or_eq_of_le hm with hmk | rfl
        · exact ihk m hmk ss'
        · exact ihn (sizeOf ss') hlt ss' rfl
      rcases ss with _ | ⟨st, rest⟩
      · exact fun place stack w hc hk => ⟨_, .nil w⟩
      cases st with
      | declare pos names => exact .of_effect smaller fun w => ⟨_, rfl⟩
      | assign pos name op value => exact .of_effect smaller fun w => ⟨_, rfl⟩
      | expr pos value => exact .of_effect smaller fun w => ⟨_, rfl⟩
      | ifElse pos branches otherwise => exact .of_branches smaller rfl
      | whileLoop pos condition body => exact .of_loop smaller rfl fun m hm => ihk m hm _
      | forLoop pos init condition update body =>
        cases init with
        | none => exact .of_loop smaller rfl fun m hm => ihk m hm _
        | some first => exact .of_init smaller rfl

/-! ## Expressions -/

/-- A machine at the start of the code of an expression, with these variables. -/
def Expr.machine (e : Expr) (globals : Table Value) : Machine :=
  ⟨(e.code 0).toArray, 0, [], globals, 0⟩

/-- The run of an expression that has a value ends with the value, and with nothing else, on the
stack. -/
theorem run_of_eval {e : Expr} {globals : Table Value} {s t : σ} {v : Value}
    (h : e.eval host globals s = (.ok v, t)) :
    ∃ limit m, (e.machine globals).run host limit s = (m, t, .done) ∧ m.stack = [v] ∧
      m.globals = globals := by
  have hdelivers : Delivers host _ _ globals _ (e.eval host globals s) :=
    Expr.delivers globals e 0 [] s (.whole (e.code 0))
  rw [h, Nat.zero_add] at hdelivers
  obtain ⟨k, n, hrun⟩ := run_of_leads hdelivers 0
  have hdone : (Point.machine (σ := σ) ⟨(e.code 0).length, [v], globals, t⟩ (e.code 0) n).isDone =
      true := by
    dsimp only [Machine.isDone, Point.machine]
    exact decide_eq_true (Nat.le_of_eq List.size_toArray)
  exact ⟨0 + k + 1, _, (hrun 0).trans (run_of_isDone 0 hdone), rfl, rfl⟩

/-! ## Programs -/

/-- How a run ended, for statements that ended with a fault or without one. -/
def RunEnd.ofFault : Option RuntimeError → RunEnd
  | none => .done
  | some e => .fault e

theorem RunEnd.ofFault_ne_limit (fault : Option RuntimeError) : ofFault fault ≠ .limit := by
  cases fault <;> exact RunEnd.noConfusion

theorem RunEnd.ofFault_injective {a b : Option RuntimeError} (h : ofFault a = ofFault b) :
    a = b := by
  cases a <;> cases b <;> cases h <;> rfl

theorem run_of_ends {p : Program} {s : σ} {w : World σ} {fault : Option RuntimeError}
    (h : p.Ends host s (w, fault)) :
    ∃ limit m, (Machine.ofProgram p).run host limit s = (m, w.host, .ofFault fault) ∧
      m.globals = w.globals ∧ (fault = none → m.isDone = true ∧ m.stack = []) := by
  have harrives := Runs.ends h 0 [] (.whole p.code)
  rw [Nat.zero_add] at harrives
  cases fault with
  | none =>
    obtain ⟨k, n, hrun⟩ := run_of_leads harrives 0
    have hdone : ((w.point p.code.length []).machine p.code n).isDone = true := by
      dsimp only [Machine.isDone, Point.machine]
      exact decide_eq_true (Nat.le_of_eq List.size_toArray)
    exact ⟨0 + k + 1, _, (hrun 0).trans (run_of_isDone 0 hdone), rfl, fun _ => ⟨hdone, rfl⟩⟩
  | some e =>
    obtain ⟨y, hleads, hfails⟩ := harrives
    obtain ⟨k, n, hrun⟩ := run_of_leads hleads 0
    obtain ⟨ip, stack, hstep⟩ := hfails n
    refine ⟨0 + k + 1, (w.point ip stack).machine p.code (n + 1), (hrun 0).trans ?_, rfl, nofun⟩
    rw [Machine.run, hstep]
    rfl

theorem ends_of_run {p : Program} {s t : σ} {limit : Nat} {m : Machine} {r : RunEnd}
    (h : (Machine.ofProgram p).run host limit s = (m, t, r)) (hr : r ≠ .limit) :
    ∃ r, p.Ends host s r := by
  have hhalts : Halts host p.code limit ((⟨.empty, s⟩ : World σ).point 0 []) := by
    refine ⟨0, ?_⟩
    have hrun : ((⟨0, [], .empty, s⟩ : Point σ).machine p.code 0).run host (limit + 1) s =
        (m, t, r) := run_stable h hr (Nat.le_succ limit)
    rw [hrun]
    exact hr
  exact runs_of_halts limit p.body 0 [] ⟨.empty, s⟩ (.whole p.code) hhalts

/-- A run of the code comes to an end exactly if the evaluation does, and with the same end. -/
theorem ends_iff_run {p : Program} {s : σ} {w : World σ} {fault : Option RuntimeError} :
    p.Ends host s (w, fault) ↔
      ∃ limit m, (Machine.ofProgram p).run host limit s = (m, w.host, .ofFault fault) ∧
        m.globals = w.globals ∧ (fault = none → m.isDone = true ∧ m.stack = []) := by
  constructor
  · exact run_of_ends
  · rintro ⟨limit, m, hrun, hglobals, -⟩
    obtain ⟨⟨w', fault'⟩, hends⟩ := ends_of_run hrun (RunEnd.ofFault_ne_limit fault)
    obtain ⟨limit', m', hrun', hglobals', -⟩ := run_of_ends hends
    have hlate := run_stable hrun (RunEnd.ofFault_ne_limit fault) (Nat.le_max_left limit limit')
    have hlate' := run_stable hrun' (RunEnd.ofFault_ne_limit fault') (Nat.le_max_right limit limit')
    rw [hlate, Prod.mk.injEq, Prod.mk.injEq] at hlate'
    obtain ⟨hm, hhost, hfault⟩ := hlate'
    have hvariables : w.globals = w'.globals := by
      rw [← hglobals, hm, hglobals']
    have hw : w = w' := World.ext hvariables hhost
    rw [hw, RunEnd.ofFault_injective hfault]
    exact hends

/-- **Compilation preserves meaning.**  The evaluation of a program ends normally exactly if the
instructions of its code come to an end, and with a fault exactly if they end with that fault.
Either way both leave the same variables, and both have made the same calls on the host in the same
order; after a normal end nothing is left on the stack. -/
theorem Program.code_preserves_meaning (p : Program) (host : Host σ) (s t : σ) (globals : Table Value)
    (calls : List (String × List Value)) :
    (p.Ends host.noting (s, []) (⟨globals, t, calls⟩, none) ↔
      ∃ limit m, (Machine.ofProgram p).run host.noting limit (s, []) = (m, (t, calls), .done) ∧
        m.globals = globals ∧ m.isDone = true ∧ m.stack = []) ∧
    ∀ e, p.Ends host.noting (s, []) (⟨globals, t, calls⟩, some e) ↔
      ∃ limit m, (Machine.ofProgram p).run host.noting limit (s, []) = (m, (t, calls), .fault e) ∧
        m.globals = globals := by
  constructor
  · rw [ends_iff_run]
    constructor
    · rintro ⟨limit, m, hrun, hglobals, hdone⟩
      exact ⟨limit, m, hrun, hglobals, hdone rfl⟩
    · rintro ⟨limit, m, hrun, hglobals, hdone⟩
      exact ⟨limit, m, hrun, hglobals, fun _ => hdone⟩
  · intro e
    rw [ends_iff_run]
    constructor
    · rintro ⟨limit, m, hrun, hglobals, -⟩
      exact ⟨limit, m, hrun, hglobals⟩
    · rintro ⟨limit, m, hrun, hglobals⟩
      exact ⟨limit, m, hrun, hglobals, nofun⟩

end Script
end VisualBlocks

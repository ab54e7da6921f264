import VisualBlocks.Sandbox.Run

/-!
# Driving is stepping

A run can be driven to its end, or be made by hand, one step at a time.  A step of an idle sandbox
does nothing, so a sandbox can be stepped for ever, and **driving a sandbox with a budget of `n`
steps is to step it `n` times** and to put it to rest then (`drive_eq`).  All else follows from that:
stepping twice adds up, and what is idle stays as it is.

* `Finishes` says how a run without a bound ends: as `finish` ends it for all patience that is large
  enough.
* `stepping_agrees`: after any number of steps by hand the run comes to the same end, and a fault is
  reported once, by one of the steps or at the end.
-/

set_option autoImplicit false

namespace VisualBlocks
namespace Sandbox

open Script (Machine RuntimeError Status)

/-! ## One step -/

/-- What a sandbox does after a step of its machine. -/
def State.afterStep : Except RuntimeError Status → State
  | .ok .running => .running
  | .ok .done => .idle
  | .error _ => .idle

/-- **A sandbox that is running steps its machine.** -/
theorem step_running (options : Options) (e : Effects) (m : Machine) :
    Sandbox.step ⟨options, .running, e, some m⟩ =
      (⟨options, .afterStep (m.step capabilities e).2.2, (m.step capabilities e).2.1,
          some (m.step capabilities e).1⟩,
        (m.step capabilities e).2.2.map fun status => .afterStep (.ok status)) := by
  rw [step]
  rcases m.step capabilities e with ⟨m', e', error | _ | _⟩ <;> rfl

theorem step_of_idle {b : Sandbox} (h : b.state = .idle) : b.step = (b, .ok .idle) := by
  obtain ⟨options, state, e, m⟩ := b
  subst h
  rfl

/-- A step reports the state that it leaves the sandbox in, or a fault, and then the run is over. -/
theorem step_state (b : Sandbox) :
    (∀ state, b.step.2 = .ok state → b.step.1.state = state) ∧
      ∀ error, b.step.2 = .error error → b.step.1.state = .idle := by
  obtain ⟨options, _ | _, e, _ | m⟩ := b
  case running.some =>
    rw [step_running]
    rcases m.step capabilities e with ⟨m', e', error | _ | _⟩
    all_goals
      refine ⟨fun state h => ?_, fun error h => ?_⟩ <;> cases h <;> rfl
  all_goals exact ⟨fun state h => Except.ok.inj h, nofun⟩

theorem step_options (b : Sandbox) : b.step.1.options = b.options := by
  obtain ⟨options, _ | _, e, _ | m⟩ := b
  case running.some => rw [step_running]
  all_goals rfl

/-! ## Many steps -/

/-- A sandbox after `n` steps, and what each of them reports. -/
def stepTimes : Nat → Sandbox → Sandbox × List (Except RuntimeError State)
  | 0, b => (b, [])
  | n + 1, b => ((stepTimes n b.step.1).1, b.step.2 :: (stepTimes n b.step.1).2)

/-- The faults among reports. -/
def faults (reports : List (Except RuntimeError State)) : List RuntimeError :=
  reports.filterMap fun
    | .error error => some error
    | .ok _ => none

theorem faults_append (first second : List (Except RuntimeError State)) :
    faults (first ++ second) = faults first ++ faults second :=
  List.filterMap_append

theorem stepTimes_add (n k : Nat) (b : Sandbox) :
    (b.stepTimes (n + k)).1 = ((b.stepTimes n).1.stepTimes k).1 ∧
      (b.stepTimes (n + k)).2 = (b.stepTimes n).2 ++ ((b.stepTimes n).1.stepTimes k).2 := by
  induction n generalizing b with
  | zero =>
    rw [Nat.zero_add]
    exact ⟨rfl, rfl⟩
  | succ n ih =>
    obtain ⟨hsandbox, hreports⟩ := ih b.step.1
    rw [Nat.add_right_comm]
    exact ⟨hsandbox, congrArg (b.step.2 :: ·) hreports⟩

/-- What every step keeps, many steps keep. -/
theorem stepTimes_keeps {P : Sandbox → Prop} (hstep : ∀ b, P b → P b.step.1) {b : Sandbox}
    (h : P b) (n : Nat) : P (b.stepTimes n).1 := by
  induction n generalizing b with
  | zero => exact h
  | succ n ih => exact ih (hstep b h)

theorem stepTimes_options (n : Nat) (b : Sandbox) : (b.stepTimes n).1.options = b.options :=
  stepTimes_keeps (P := fun c => c.options = b.options) (fun c h => (step_options c).trans h) rfl n

/-- **What is idle stays as it is.** -/
theorem stepTimes_of_idle {b : Sandbox} (h : b.state = .idle) (n : Nat) :
    (b.stepTimes n).1 = b ∧ faults (b.stepTimes n).2 = [] := by
  induction n with
  | zero => exact ⟨rfl, rfl⟩
  | succ n ih =>
    rw [stepTimes, step_of_idle h]
    exact ih

/-- Steps after the end of a run change nothing and report no fault. -/
theorem stepTimes_settled {b : Sandbox} {n k : Nat} (h : (b.stepTimes n).1.state = .idle)
    (hle : n ≤ k) :
    (b.stepTimes k).1 = (b.stepTimes n).1 ∧
      faults (b.stepTimes k).2 = faults (b.stepTimes n).2 := by
  obtain ⟨j, rfl⟩ := Nat.exists_eq_add_of_le hle
  obtain ⟨hsandbox, hreports⟩ := stepTimes_add n j b
  obtain ⟨hidle, hquiet⟩ := stepTimes_of_idle h j
  refine ⟨hsandbox.trans hidle, ?_⟩
  rw [hreports, faults_append, hquiet, List.append_nil]

/-- A run has at most one fault, and the run is over after it. -/
theorem faults_stepTimes (n : Nat) (b : Sandbox) :
    faults (b.stepTimes n).2 = [] ∨
      (b.stepTimes n).1.state = .idle ∧ ∃ error, faults (b.stepTimes n).2 = [error] := by
  induction n generalizing b with
  | zero => exact .inl rfl
  | succ n ih =>
    cases hreport : b.step.2 with
    | ok state =>
      rw [stepTimes, hreport]
      exact ih b.step.1
    | error error =>
      have hidle := (step_state b).2 error hreport
      obtain ⟨hsame, hquiet⟩ := stepTimes_of_idle hidle n
      rw [stepTimes, hreport]
      dsimp only
      rw [hsame]
      exact .inr ⟨hidle, error, congrArg (error :: ·) hquiet⟩

/-! ## Driving -/

/-- A sandbox put to rest. -/
def rest (b : Sandbox) : Sandbox := { b with state := .idle }

theorem rest_of_idle {b : Sandbox} (h : b.state = .idle) : b.rest = b := by
  obtain ⟨options, state, e, m⟩ := b
  subst h
  rfl

/-- How a run ends that has come to `b` with the given faults when its steps are used up. -/
def outcome (limit : Nat) (b : Sandbox) : List RuntimeError → Except Error Unit
  | error :: _ => .error (.runtime error)
  | [] =>
    match b.state with
    | .idle => .ok ()
    | .running => .error (.stepBudget limit)

theorem drive_of_idle {limit : Nat} {b : Sandbox} (h : b.state = .idle) (budget : Nat)
    (p : Progress) : drive limit budget p b = (b, p, .ok ()) := by
  cases budget <;> rw [drive, h]

/-- **Driving with a budget of `n` steps is stepping `n` times.** -/
theorem drive_eq (limit n : Nat) (p : Progress) (b : Sandbox) :
    (drive limit n p b).1 = (b.stepTimes n).1.rest ∧
      (drive limit n p b).2.2 = outcome limit (b.stepTimes n).1 (faults (b.stepTimes n).2) := by
  induction n generalizing p b with
  | zero =>
    rw [drive, stepTimes]
    cases h : b.state with
    | idle => exact ⟨(rest_of_idle h).symm, by rw [faults, List.filterMap_nil, outcome, h]⟩
    | running => exact ⟨rfl, by rw [faults, List.filterMap_nil, outcome, h]⟩
  | succ n ih =>
    rw [drive]
    cases h : b.state with
    | idle =>
      obtain ⟨hsame, hquiet⟩ := stepTimes_of_idle h (n + 1)
      rw [hsame, hquiet, rest_of_idle h, outcome, h]
      exact ⟨rfl, rfl⟩
    | running =>
      obtain ⟨hok, hfault⟩ := step_state b
      rw [stepTimes]
      dsimp only
      rcases hstep : b.step with ⟨c, error | _ | _⟩ <;> rw [hstep] at hok hfault
      · have hidle : c.state = .idle := hfault error rfl
        obtain ⟨hsame, hquiet⟩ := stepTimes_of_idle hidle n
        dsimp only
        rw [hsame, rest_of_idle hidle]
        exact ⟨rfl, rfl⟩
      · exact ih _ c
      · exact ih _ c

/-- **What every step keeps, a run keeps**, if it does not depend on whether the sandbox runs. -/
theorem finish_keeps {P : Sandbox → Prop} (hstep : ∀ b, P b → P b.step.1)
    (hrest : ∀ b, P b → P b.rest) {b : Sandbox} (h : P b) (patience : Nat) :
    P (b.finish patience).1 := by
  rw [finish, (drive_eq _ _ _ b).1]
  exact hrest _ (stepTimes_keeps hstep h _)

/-! ## Runs without a bound -/

/-- What is said of a run that came to its end with a fault or without one. -/
def verdict : Option RuntimeError → Except Error Unit
  | none => .ok ()
  | some error => .error (.runtime error)

/-- `b` is driven to its end and is `c` then: `finish` says so for all patience that is large
enough. -/
def Finishes (b c : Sandbox) (fault : Option RuntimeError) : Prop :=
  ∃ enough, ∀ patience, enough ≤ patience →
    (b.finish patience).1 = c ∧ (b.finish patience).2.2 = verdict fault

/-- A run comes to its end if the sandbox is idle when its steps are used up, and the fault that has
been reported is the verdict. -/
theorem outcome_eq_verdict_iff {limit : Nat} {b : Sandbox} {errors : List RuntimeError}
    {fault : Option RuntimeError} (h : errors = [] ∨ b.state = .idle ∧ ∃ error, errors = [error]) :
    outcome limit b errors = verdict fault ↔ b.state = .idle ∧ errors = fault.toList := by
  rcases h with rfl | ⟨hidle, error, rfl⟩
  · cases hstate : b.state <;> cases fault <;> simp [outcome, verdict, hstate]
  · cases fault <;> simp [outcome, verdict, hidle]

variable {b c : Sandbox} {fault : Option RuntimeError}

/-- **A run without a bound ends when the sandbox is idle after some number of steps.** -/
theorem finishes_iff (h : b.options.maxSteps = none) :
    b.Finishes c fault ↔
      ∃ n, (b.stepTimes n).1 = c ∧ c.state = .idle ∧ faults (b.stepTimes n).2 = fault.toList := by
  have hfinish (patience : Nat) : (b.finish patience).1 = (b.stepTimes patience).1.rest ∧
      (b.finish patience).2.2 =
        outcome patience (b.stepTimes patience).1 (faults (b.stepTimes patience).2) := by
    rw [finish, Options.limit, h]
    exact drive_eq patience patience _ b
  constructor
  · rintro ⟨n, hn⟩
    obtain ⟨hend, houtcome⟩ := hn n (Nat.le_refl n)
    rw [(hfinish n).2, outcome_eq_verdict_iff (faults_stepTimes n b)] at houtcome
    obtain ⟨hidle, hfaults⟩ := houtcome
    rw [(hfinish n).1, rest_of_idle hidle] at hend
    exact ⟨n, hend, hend ▸ hidle, hfaults⟩
  · rintro ⟨n, rfl, hidle, hfaults⟩
    refine ⟨n, fun patience hpatience => ?_⟩
    obtain ⟨hsame, hquiet⟩ := stepTimes_settled hidle hpatience
    obtain ⟨hend, houtcome⟩ := hfinish patience
    rw [hend, houtcome, hsame, hquiet]
    exact ⟨rest_of_idle hidle, (outcome_eq_verdict_iff (faults_stepTimes n b)).2 ⟨hidle, hfaults⟩⟩

/-! ## Calls -/

/-- A call on a sandbox.  Where no budget is set up the calls that drive it bring their patience. -/
inductive Call where
  | start (source : String)
  | step
  | finish (patience : Nat)
  | execute (patience : Nat) (source : String)

/-- Does the call go on with the present run, rather than begin another one? -/
def Call.continues : Call → Bool
  | .step | .finish _ => true
  | .start _ | .execute _ _ => false

/-- The sandbox after a call. -/
def call (b : Sandbox) : Call → Sandbox
  | .start source => (b.start source).1
  | .step => b.step.1
  | .finish patience => (b.finish patience).1
  | .execute patience source => (b.execute patience source).1

/-- The sandbox after some calls. -/
def after (b : Sandbox) (calls : List Call) : Sandbox := calls.foldl call b

/-- What every call keeps, some calls keep. -/
theorem after_keeps {P : Sandbox → Prop} (hcall : ∀ b c, P b → P (b.call c)) (h : P b)
    (calls : List Call) : P (b.after calls) := by
  induction calls generalizing b with
  | nil => exact h
  | cons c calls ih => exact ih (hcall b c h)

theorem finish_of_idle (h : b.state = .idle) (patience : Nat) : (b.finish patience).1 = b :=
  congrArg Prod.fst (drive_of_idle h _ _)

theorem after_of_idle (h : b.state = .idle) {calls : List Call}
    (hcalls : ∀ call ∈ calls, call.continues = true) : b.after calls = b := by
  induction calls with
  | nil => rfl
  | cons first calls ih =>
    obtain ⟨hfirst, hrest⟩ := List.forall_mem_cons.1 hcalls
    have hsame : b.call first = b := by
      cases first with
      | step => exact congrArg Prod.fst (step_of_idle h)
      | finish patience => exact finish_of_idle h patience
      | start source => cases hfirst
      | execute patience source => cases hfirst
    rw [after, List.foldl_cons, hsame]
    exact ih hrest

theorem start_options (b : Sandbox) (source : String) :
    (b.start source).1.options = b.options := by
  rw [start]
  cases Script.parseProgram source <;> rfl

/-- **Stepping by hand and driving agree.**  A run without a bound that is stepped `k` times and then
driven comes to its end exactly if it does when it is only driven, and the sandbox is the same then:
state, effects, variables and the count of instructions.  The faults that the steps report and the
one at the end are together the one fault that is reported otherwise.  A sandbox that is idle stays
as it is until the next run. -/
theorem stepping_agrees (b : Sandbox) (hunbounded : b.options.maxSteps = none) (source : String)
    (k : Nat) :
    let run := (b.start source).1
    (∀ c fault, run.Finishes c fault ↔
      ∃ late, (run.stepTimes k).1.Finishes c late ∧
        faults (run.stepTimes k).2 ++ late.toList = fault.toList) ∧
    ∀ c : Sandbox, c.state = .idle →
      ∀ calls : List Call, (∀ call ∈ calls, call.continues = true) → c.after calls = c := by
  intro run
  have hrun : run.options.maxSteps = none := by rw [start_options, hunbounded]
  have hstepped : (run.stepTimes k).1.options.maxSteps = none := by rw [stepTimes_options, hrun]
  refine ⟨fun c fault => ?_, fun c hidle calls hcalls => after_of_idle hidle hcalls⟩
  rw [finishes_iff hrun]
  constructor
  · rintro ⟨n, rfl, hidle, hfaults⟩
    obtain ⟨hsame, hquiet⟩ := stepTimes_settled hidle (Nat.le_add_left n k)
    obtain ⟨hsandbox, hreports⟩ := stepTimes_add k n run
    have hlate : ∃ late : Option RuntimeError,
        faults ((run.stepTimes k).1.stepTimes n).2 = late.toList := by
      rcases faults_stepTimes n (run.stepTimes k).1 with hnone | ⟨-, error, hone⟩
      · exact ⟨none, hnone⟩
      · exact ⟨some error, hone⟩
    obtain ⟨late, hlate⟩ := hlate
    refine ⟨late, (finishes_iff hstepped).2 ⟨n, ?_, hidle, hlate⟩, ?_⟩
    · rw [← hsandbox, hsame]
    · rw [← hlate, ← faults_append, ← hreports, hquiet, hfaults]
  · rintro ⟨late, hlate, hfaults⟩
    obtain ⟨n, rfl, hidle, hquiet⟩ := (finishes_iff hstepped).1 hlate
    obtain ⟨hsandbox, hreports⟩ := stepTimes_add k n run
    refine ⟨k + n, hsandbox, hidle, ?_⟩
    rw [hreports, faults_append, hquiet, hfaults]

/-- A run without a bound that puts out a line and then fails. -/
def failingRun : Sandbox :=
  ((new { Options.standard with maxSteps := none }).start "window.alert('a'); nope;").1

/-- The fault of `failingRun`. -/
def nopeFault : RuntimeError := ⟨.notDefined "nope", ⟨1, 20⟩⟩

theorem failingRun_agrees :
    ∃ late, (failingRun.stepTimes 2).1.Finishes (failingRun.stepTimes 4).1 late ∧
      faults (failingRun.stepTimes 2).2 ++ late.toList = [nopeFault] := by
  have hfinishes : failingRun.Finishes (failingRun.stepTimes 4).1 (some nopeFault) :=
    (finishes_iff (by decide +kernel)).2 ⟨4, rfl, by decide +kernel, by decide +kernel⟩
  exact ((stepping_agrees _ rfl _ 2).1 _ _).1 hfinishes

end Sandbox
end VisualBlocks

import Mathlib.Logic.Function.Iterate
import VisualBlocks.Proofs.Sandbox.Driving
import VisualBlocks.Proofs.Script.Stepping

/-!
# Runs start afresh

A run finds nothing that an earlier one left: **whatever has been done with a sandbox, a script is
executed in it as in a new one** (`execute_afresh`).  To begin a run drops the drawings, the lines
and the machine, so all that could be left of an earlier run is the surface below the drawings: its
size and the fill of the next circle.  No function that a script can call changes these, and so no
call on the sandbox does (`Kept`).

The host is called in every pause of a run.  `executeYielding` makes these calls, on a host with a
state of its own, and does with the sandbox what `execute` does (`executeYielding_eq`).
-/

set_option autoImplicit false

namespace VisualBlocks
namespace Sandbox

open Script (Machine)

/-! ## What is left of an earlier run -/

/-- No function of the sandbox changes the surface below the drawings. -/
theorem clear_capabilities (e : Effects) (name : String) (args : List Script.Value) :
    (capabilities.call e name args).2.clear = e.clear := by
  dsimp only [capabilities]
  split
  · dsimp only [Effects.draw]
    split <;> rfl
  · split <;> rfl

theorem step_clear (b : Sandbox) : b.step.1.effects.clear = b.effects.clear := by
  obtain ⟨options, _ | _, e, _ | m⟩ := b
  case running.some =>
    rw [step_running]
    rcases m.step_host capabilities e with hsame | ⟨name, -, args, hcall⟩
    · exact congrArg Effects.clear hsame
    · exact (congrArg Effects.clear hcall).trans (clear_capabilities e name args)
  all_goals rfl

/-- A sandbox with the set-up `options` whose next run begins on an empty surface. -/
structure Kept (options : Options) (b : Sandbox) : Prop where
  setUp : b.options = options
  clear : b.effects.clear = (new options).effects

namespace Kept

variable {options : Options} {b : Sandbox}

theorem new (options : Options) : Kept options (new options) := ⟨rfl, rfl⟩

theorem step (h : Kept options b) : Kept options b.step.1 :=
  ⟨(step_options b).trans h.setUp, (step_clear b).trans h.clear⟩

theorem finish (h : Kept options b) (patience : Nat) : Kept options (b.finish patience).1 :=
  finish_keeps (fun _ => step) (fun _ h => ⟨h.setUp, h.clear⟩) h patience

/-- **A run begins as in a new sandbox.** -/
theorem start_eq (h : Kept options b) (source : String) :
    b.start source = (Sandbox.new options).start source := by
  rw [start, start, h.setUp, h.clear]
  rfl

/-- A run that has begun in a new sandbox. -/
theorem start_new (options : Options) (source : String) :
    Kept options ((Sandbox.new options).start source).1 := by
  rw [start]
  cases Script.parseProgram source <;> exact ⟨rfl, rfl⟩

theorem execute_eq (h : Kept options b) (patience : Nat) (source : String) :
    b.execute patience source = (Sandbox.new options).execute patience source := by
  rw [execute, execute, h.start_eq source]

theorem execute_new (options : Options) (patience : Nat) (source : String) :
    Kept options ((Sandbox.new options).execute patience source).1 := by
  have hstart := start_new options source
  rw [execute]
  rcases hrun : (Sandbox.new options).start source with ⟨c, error | _⟩ <;> rw [hrun] at hstart
  · exact hstart
  · exact hstart.finish patience

theorem call (h : Kept options b) (c : Call) : Kept options (b.call c) := by
  cases c with
  | start source =>
    rw [Sandbox.call, h.start_eq]
    exact start_new options source
  | step => exact h.step
  | finish patience => exact h.finish patience
  | execute patience source =>
    rw [Sandbox.call, h.execute_eq]
    exact execute_new options patience source

theorem after (h : Kept options b) (calls : List Call) : Kept options (b.after calls) :=
  after_keeps (fun _ c h => h.call c) h calls

end Kept

/-! ## Pauses -/

section Yielding

variable {τ : Type} (yield : Nat → τ → τ)

/-- `drive` for a host that is called in every pause with the length of the pause.  Beside the
sandbox there are the state of the host and the number of steps. -/
def driveYielding (limit : Nat) : Nat → Nat → Sandbox → τ → Sandbox × τ × Except Error Nat
  | 0, steps, b, t =>
    match b.state with
    | .idle => (b, t, .ok steps)
    | .running => ({ b with state := .idle }, t, .error (.stepBudget limit))
  | budget + 1, steps, b, t =>
    match b.state with
    | .idle => (b, t, .ok steps)
    | .running =>
      match b.step with
      | (b, .error e) => (b, t, .error (.runtime e))
      | (b, .ok .idle) => driveYielding limit budget (steps + 1) b t
      | (b, .ok .running) =>
        driveYielding limit budget (steps + 1) b (yield b.options.stepDelay t)

/-- `execute` for such a host. -/
def executeYielding (b : Sandbox) (patience : Nat) (source : String) (t : τ) :
    Sandbox × τ × Except Error Nat :=
  match b.start source with
  | (b, .error e) => (b, t, .error (.parse e))
  | (b, .ok ()) =>
    driveYielding yield (b.options.limit patience) (b.options.limit patience) 0 b t

/-- The sandbox, the state of the host after all pauses, and the number of steps of a run that has
come to its end. -/
def yielded (delay : Nat) (t : τ) (r : Sandbox × Progress × Except Error Unit) :
    Sandbox × τ × Except Error Nat :=
  (r.1, (yield delay)^[r.2.1.pauses] t, r.2.2.map fun _ => r.2.1.steps)

theorem driveYielding_eq (limit budget : Nat) (p : Progress) (b : Sandbox) (t : τ) :
    driveYielding yield limit budget p.steps b ((yield b.options.stepDelay)^[p.pauses] t) =
      yielded yield b.options.stepDelay t (drive limit budget p b) := by
  induction budget generalizing p b with
  | zero =>
    rw [driveYielding, drive]
    cases b.state <;> rfl
  | succ budget ih =>
    rw [driveYielding, drive]
    cases hstate : b.state with
    | idle => rfl
    | running =>
      have hoptions := step_options b
      rcases hstep : b.step with ⟨c, error | _ | _⟩ <;> rw [hstep] at hoptions <;> dsimp only at hoptions ⊢
      · rfl
      · rw [← hoptions]
        exact ih ⟨p.steps + 1, p.pauses⟩ c
      · rw [← hoptions, ← Function.iterate_succ_apply' (yield c.options.stepDelay)]
        exact ih ⟨p.steps + 1, p.pauses + 1⟩ c

/-- **The host is called in every pause**, and nothing else depends on it. -/
theorem executeYielding_eq (b : Sandbox) (patience : Nat) (source : String) (t : τ) :
    executeYielding yield b patience source t =
      yielded yield b.options.stepDelay t (b.execute patience source) := by
  have hoptions := start_options b source
  rw [executeYielding, execute]
  rcases hstart : b.start source with ⟨c, error | _⟩ <;> rw [hstart] at hoptions
  · rfl
  · rw [← hoptions]
    exact driveYielding_eq yield _ _ ⟨0, 0⟩ c t

end Yielding

/-! ## Histories -/

/-- **A script is executed as in a new sandbox**, whatever calls there were before, with faults,
scripts that cannot be read and budgets that ran out among them: the sandbox afterwards, with its
effects and its machine, how far the run came and how it ended are the same, and so are the calls of
the host in the pauses.  After a script that cannot be read the sandbox is as new. -/
theorem execute_afresh (options : Options) (calls : List Call) (patience : Nat) (source : String) :
    ((new options).after calls).execute patience source =
        (new options).execute patience source ∧
      (∀ {τ : Type} (yield : Nat → τ → τ) (t : τ),
        executeYielding yield ((new options).after calls) patience source t =
            executeYielding yield (new options) patience source t ∧
          executeYielding yield (new options) patience source t =
            yielded yield options.stepDelay t ((new options).execute patience source)) ∧
      ∀ e, Script.parseProgram source = .error e →
        ((new options).after calls).execute patience source =
          (new options, ⟨0, 0⟩, .error (.parse e)) := by
  have hkept := (Kept.new options).after calls
  have hexecute := hkept.execute_eq patience source
  refine ⟨hexecute, fun yield t => ⟨?_, ?_⟩, fun e he => ?_⟩
  · rw [executeYielding_eq, executeYielding_eq, hexecute, hkept.setUp]
    rfl
  · exact executeYielding_eq yield (new options) patience source t
  · rw [hexecute, execute, start, he]
    rfl

/-- Calls that leave a run half done, after one that failed and one that could not be read. -/
def interrupted : List Call :=
  [.execute 0 "drawCircle(1, 1, 1); nope;", .start "window.alert(1", .start "window.alert('a'); x = 2;",
    .step, .step, .step]

theorem interrupted_afresh :
    ((new .standard).after interrupted).state = .running ∧
      ((new .standard).after interrupted).effects.output = #["a"] ∧
      ((new .standard).after interrupted).execute 0 "y = ;" =
        (new .standard, ⟨0, 0⟩, .error (.parse ⟨.unexpectedToken ";", ⟨1, 5⟩⟩)) :=
  ⟨by decide +kernel, by decide +kernel,
    (execute_afresh .standard interrupted 0 "y = ;").2.2 _ (by cbv)⟩

end Sandbox
end VisualBlocks

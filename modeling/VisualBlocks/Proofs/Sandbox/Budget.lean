import Mathlib
import VisualBlocks.Proofs.Sandbox.History

/-!
# Budgets

A run that is driven counts its steps and stops when a budget is used up.  `Machine.advance` makes
the instructions of a script without any budget, and says when the script is done: after exactly `k`
of them, or never.  Against it **the count is the number of instructions, and the budget is kept to
the instruction** (`execute_counts`): a script is run to its end if it fits and stopped at the last
instruction that does.

There is one exception.  Whether a run is over is seen after a step, so a script without any
instructions is found out by a step that does nothing, and this step is counted and paid for like
any other: the count is `1` where no instruction was made, and a budget of `0` runs out on a script
that has nothing to do (`empty_script_counted`).
-/

set_option autoImplicit false

namespace VisualBlocks
namespace Sandbox

open Script (Machine Status parseProgram)

/-! ## The budget against the machine -/

section Drive

variable {limit : Nat} {options : Options} {e e' : Effects} {m m' : Machine}

/-- A step that makes an instruction is counted, and there is a pause after it if another one
follows. -/
theorem drive_step {status : Status} (hgoing : m.isDone = false)
    (hstep : m.step capabilities e = (m', e', .ok status)) (budget : Nat) (p : Progress) :
    drive limit (budget + 1) p ⟨options, .running, e, some m⟩ =
      if m'.isDone then drive limit budget ⟨p.steps + 1, p.pauses⟩ ⟨options, .idle, e', some m'⟩
      else drive limit budget ⟨p.steps + 1, p.pauses + 1⟩ ⟨options, .running, e', some m'⟩ := by
  obtain rfl := Machine.step_status hgoing hstep
  rw [drive, step_running, hstep]
  cases m'.isDone <;> rfl

/-- As long as the machine goes on, driving it is to advance it. -/
theorem drive_advance {n : Nat} (h : m.advance capabilities n e = some (m', e'))
    (hgoing : m'.isDone = false) (budget : Nat) (p : Progress) :
    drive limit (n + budget) p ⟨options, .running, e, some m⟩ =
      drive limit budget ⟨p.steps + n, p.pauses + n⟩ ⟨options, .running, e', some m'⟩ := by
  induction n generalizing m e p with
  | zero =>
    cases h
    rw [Nat.zero_add]
    rfl
  | succ n ih =>
    obtain ⟨hdone, u, t, status, hstep, hrest⟩ := Machine.advance_succ h
    have hnext : u.isDone = false := Machine.not_isDone_of_advance hrest hgoing
    rw [Nat.add_right_comm, drive_step hdone hstep, hnext, if_neg Bool.false_ne_true, ih hrest,
      Nat.add_assoc, Nat.add_comm 1, Nat.add_assoc, Nat.add_comm 1]

/-- **A machine that comes to its end within the budget** is driven to its end. -/
theorem drive_halts {k : Nat} (h : m.advance capabilities (k + 1) e = some (m', e'))
    (hdone : m'.isDone = true) (budget : Nat) (p : Progress) :
    drive limit (k + 1 + budget) p ⟨options, .running, e, some m⟩ =
      (⟨options, .idle, e', some m'⟩, ⟨p.steps + (k + 1), p.pauses + k⟩, .ok ()) := by
  obtain ⟨u, t, status, hbefore, hgoing, hlast⟩ := Machine.advance_last h
  rw [Nat.add_assoc, drive_advance hbefore hgoing, Nat.add_comm 1, drive_step hgoing hlast, hdone,
    if_pos rfl, drive_of_idle rfl]
  rfl

/-- **A machine that goes on beyond the budget** is stopped when the budget is used up. -/
theorem drive_exhausted {n : Nat} (h : m.advance capabilities n e = some (m', e'))
    (hgoing : m'.isDone = false) (p : Progress) :
    drive limit n p ⟨options, .running, e, some m⟩ =
      (⟨options, .idle, e', some m'⟩, ⟨p.steps + n, p.pauses + n⟩,
        .error (.stepBudget limit)) := by
  show drive limit (n + 0) p _ = _
  rw [drive_advance h hgoing]
  rfl

/-- A machine without instructions takes a step to be found out. -/
theorem drive_of_isDone (h : m.isDone = true) (budget : Nat) (p : Progress) :
    drive limit (budget + 1) p ⟨options, .running, e, some m⟩ =
      (⟨options, .idle, e, some m⟩, ⟨p.steps + 1, p.pauses⟩, .ok ()) := by
  rw [drive, step_running, Machine.step_of_isDone h]
  exact drive_of_idle rfl budget _

end Drive

/-! ## Counting -/

/-- The instructions that the machine of a sandbox has begun. -/
def ops (b : Sandbox) : Nat := (b.machine.map Machine.steps).getD 0

/-- A sandbox that has an instruction to make if it is running. -/
def Busy (b : Sandbox) : Prop :=
  b.state = .running → ∃ m, b.machine = some m ∧ m.isDone = false

/-- A sandbox that is only running without an instruction to make if the script has none. -/
def Ready (b : Sandbox) : Prop :=
  b.state = .running → ∃ m, b.machine = some m ∧ (m.isDone = true → m.code = #[])

theorem Busy.ready {b : Sandbox} (h : b.Busy) : b.Ready := by
  intro hrunning
  obtain ⟨m, hm, hgoing⟩ := h hrunning
  refine ⟨m, hm, fun hdone => ?_⟩
  rw [hdone] at hgoing
  cases hgoing

/-- A run that has just begun, of a script without instructions. -/
def Vacant (b : Sandbox) : Prop :=
  b.state = .running ∧ ∃ m ∈ b.machine, m.code = #[]

/-- A sandbox is busy unless the script is empty. -/
theorem Ready.busy {b : Sandbox} (h : b.Ready) (hvacant : ¬ b.Vacant) : b.Busy := by
  intro hrunning
  obtain ⟨m, hm, hempty⟩ := h hrunning
  refine ⟨m, hm, ?_⟩
  cases hdone : m.isDone with
  | false => rfl
  | true => exact absurd ⟨hrunning, m, hm, hempty hdone⟩ hvacant

theorem busy_of_idle {b : Sandbox} (h : b.state = .idle) : b.Busy := by
  intro hrunning
  rw [h] at hrunning
  cases hrunning

/-- Whatever a sandbox was, it is busy after a step or at rest. -/
theorem busy_step (b : Sandbox) : b.step.1.Busy := by
  obtain ⟨options, _ | _, e, _ | m⟩ := b
  case running.some =>
    rw [step_running]
    intro hrunning
    refine ⟨_, rfl, ?_⟩
    cases hdone : m.isDone with
    | true =>
      rw [Machine.step_of_isDone hdone] at hrunning
      cases hrunning
    | false =>
      rcases hstep : m.step capabilities e with ⟨m', e', error | status⟩ <;>
        rw [hstep] at hrunning
      · cases hrunning
      · obtain rfl := Machine.step_status hdone hstep
        cases hnext : m'.isDone with
        | false => rfl
        | true =>
          rw [hnext] at hrunning
          cases hrunning
  all_goals exact busy_of_idle rfl

theorem busy_finish (b : Sandbox) (patience : Nat) : (b.finish patience).1.Busy := by
  rw [finish, (drive_eq _ _ _ b).1]
  exact busy_of_idle rfl

theorem ready_start (b : Sandbox) (source : String) : (b.start source).1.Ready := by
  rw [start]
  cases parseProgram source with
  | error e => exact (busy_of_idle rfl).ready
  | ok program =>
    refine fun _ => ⟨_, rfl, fun hdone => ?_⟩
    exact Array.eq_empty_of_size_eq_zero (Nat.le_zero.1 (of_decide_eq_true hdone))

theorem ready_call (b : Sandbox) (c : Call) : (b.call c).Ready := by
  cases c with
  | start source => exact ready_start b source
  | step => exact (busy_step b).ready
  | finish patience => exact (busy_finish b patience).ready
  | execute patience source =>
    have hstart := ready_start b source
    rw [call, execute]
    rcases hrun : b.start source with ⟨c, error | _⟩ <;> rw [hrun] at hstart
    · exact hstart
    · exact (busy_finish c patience).ready

/-- **A sandbox that is running has something to do**, unless the script is empty. -/
theorem Ready.after {b : Sandbox} (h : b.Ready) (calls : List Call) : (b.after calls).Ready :=
  after_keeps (fun b c _ => ready_call b c) h calls

/-- A step makes at most one instruction, and a busy sandbox makes one. -/
theorem ops_step (b : Sandbox) :
    b.step.1.ops ≤ b.ops + 1 ∧ (b.Busy → b.state = .running → b.step.1.ops = b.ops + 1) := by
  obtain ⟨options, _ | _, e, _ | m⟩ := b
  case running.some =>
    rw [step_running]
    cases hdone : m.isDone with
    | true =>
      rw [Machine.step_of_isDone hdone]
      refine ⟨Nat.le_succ _, fun hbusy _ => ?_⟩
      obtain ⟨m', hm', hgoing⟩ := hbusy rfl
      obtain rfl := Option.some.inj hm'
      rw [hdone] at hgoing
      cases hgoing
    | false =>
      have hsteps := Machine.step_steps capabilities hdone e
      exact ⟨Nat.le_of_eq hsteps, fun _ _ => hsteps⟩
  case running.none =>
    refine ⟨Nat.le_succ _, fun hbusy _ => ?_⟩
    obtain ⟨m, hm, -⟩ := hbusy rfl
    cases hm
  all_goals exact ⟨Nat.le_succ _, nofun⟩

theorem ops_stepTimes (n : Nat) (b : Sandbox) : (b.stepTimes n).1.ops ≤ b.ops + n := by
  induction n generalizing b with
  | zero => exact Nat.le_refl _
  | succ n ih =>
    have hstep := (ops_step b).1
    have hrest := ih b.step.1
    rw [stepTimes]
    dsimp only
    omega

/-- **No more instructions are made than the budget allows.** -/
theorem ops_finish_le (b : Sandbox) (patience : Nat) :
    (b.finish patience).1.ops ≤ b.ops + b.options.limit patience := by
  rw [finish, (drive_eq _ _ _ b).1]
  exact ops_stepTimes (b.options.limit patience) b

/-- **The steps of a run that comes to its end are its instructions**, if the sandbox is busy. -/
theorem drive_counts {limit n : Nat} {p : Progress} {b : Sandbox} (h : b.Busy)
    (hok : (drive limit n p b).2.2 = .ok ()) :
    (drive limit n p b).1.ops + p.steps = b.ops + (drive limit n p b).2.1.steps := by
  induction n generalizing p b with
  | zero =>
    rw [drive] at hok ⊢
    cases hstate : b.state with
    | idle => rfl
    | running =>
      rw [hstate] at hok
      cases hok
  | succ n ih =>
    rw [drive] at hok ⊢
    cases hstate : b.state with
    | idle => rfl
    | running =>
      have hops := (ops_step b).2 h hstate
      have hbusy := busy_step b
      rw [hstate] at hok
      dsimp only at hok ⊢
      rcases hstep : b.step with ⟨c, error | _ | _⟩ <;> rw [hstep] at hok hops hbusy <;>
        dsimp only at hok hops ⊢
      · cases hok
      all_goals
        have hrest := ih hbusy hok
        dsimp only at hrest
        omega

/-- **What the count of a run says.**  If the run comes to its end, its steps are the instructions
that it has made; a run without instructions makes one step. -/
theorem finish_counts {b : Sandbox} (h : b.Ready) {patience : Nat}
    (hok : (b.finish patience).2.2 = .ok ()) :
    (¬ b.Vacant → (b.finish patience).1.ops = b.ops + (b.finish patience).2.1.steps) ∧
      (b.Vacant → (b.finish patience).1.ops = b.ops ∧ (b.finish patience).2.1.steps = 1) := by
  rw [finish] at hok ⊢
  constructor
  · intro hvacant
    exact drive_counts (h.busy hvacant) hok
  · rintro ⟨hrunning, m, hm, hempty⟩
    obtain ⟨options, state, e, machine⟩ := b
    obtain rfl : state = .running := hrunning
    obtain rfl : machine = some m := hm
    have hdone : m.isDone = true := by simp [Machine.isDone, hempty]
    dsimp only at hok ⊢
    generalize options.limit patience = limit at hok ⊢
    cases limit with
    | zero => cases hok
    | succ limit =>
      rw [drive_of_isDone hdone]
      exact ⟨rfl, rfl⟩

/-! ## Scripts -/

/-- What is executed of a script is what the machine advances to: to its end if the script is done
after `k` instructions and these fit into the budget, and as far as the budget goes if the script
goes on.  A script without instructions takes as much of the budget as one with a single
instruction. -/
theorem execute_advance {source : String} {program : Script.Program}
    (hparsed : parseProgram source = .ok program) (b : Sandbox) (patience : Nat) {k : Nat}
    {m : Machine} {e : Effects}
    (h : (Machine.ofProgram program).advance capabilities k b.effects.clear = some (m, e)) :
    (m.isDone = true → max k 1 ≤ b.options.limit patience →
      b.execute patience source =
        (⟨b.options, .idle, e, some m⟩, ⟨max k 1, k - 1⟩, .ok ())) ∧
    (b.options.limit patience < max k 1 →
      (b.execute patience source).2.2 = .error (.stepBudget (b.options.limit patience)) ∧
        (b.execute patience source).1.ops = b.options.limit patience) := by
  rw [execute, start, hparsed]
  dsimp only
  rw [finish]
  dsimp only
  constructor
  · intro hdone hle
    obtain ⟨budget, hbudget⟩ := Nat.exists_eq_add_of_le hle
    cases k with
    | zero =>
      cases h
      rw [hbudget, Nat.max_eq_right (Nat.zero_le 1), Nat.add_comm 1, drive_of_isDone hdone]
    | succ k =>
      rw [Nat.max_eq_left (Nat.succ_le_succ (Nat.zero_le k))] at hbudget ⊢
      rw [hbudget, drive_halts h hdone, Nat.zero_add, Nat.zero_add, Nat.add_sub_cancel]
  · intro hlt
    rcases hzero : b.options.limit patience with _ | limit
    · exact ⟨rfl, rfl⟩
    · rw [← hzero]
      have hlimit : b.options.limit patience < k := by omega
      obtain ⟨u, t, hadvance, hgoing⟩ := Machine.exists_advance hlimit h
      rw [drive_exhausted hadvance hgoing]
      exact ⟨rfl, (Machine.steps_of_advance hadvance).trans (Nat.zero_add _)⟩

/-- **The budget is kept, and the count is the number of instructions.**  A script whose machine is
done after `k` instructions is run to its end, and counts `k`, if it fits into the budget, and is
stopped after as many instructions as there are in the budget if it does not; so is a script that
never halts.  In all this a script without instructions takes up as much as one with a single
instruction.  Whatever was done with a sandbox before, a run that is driven makes no more
instructions than the budget has, and the count of one that comes to its end is the number of
instructions that have been made, or `1` for a script that has none. -/
theorem execute_counts {source : String} {program : Script.Program}
    (hparsed : parseProgram source = .ok program) (b : Sandbox) (patience : Nat) :
    let limit := b.options.limit patience
    let start := Machine.ofProgram program
    (∀ k m e, start.advance capabilities k b.effects.clear = some (m, e) → m.isDone = true →
      m.steps = k ∧
      (max k 1 ≤ limit → b.execute patience source =
        (⟨b.options, .idle, e, some m⟩, ⟨max k 1, k - 1⟩, .ok ())) ∧
      (limit < max k 1 → (b.execute patience source).2.2 = .error (.stepBudget limit) ∧
        (b.execute patience source).1.ops = limit)) ∧
    ((∀ n, (start.advance capabilities n b.effects.clear).isSome = true) →
      (b.execute patience source).2.2 = .error (.stepBudget limit) ∧
        (b.execute patience source).1.ops = limit) ∧
    ∀ (options : Options) (calls : List Call) (patience : Nat),
      let c := (new options).after calls
      let r := c.finish patience
      r.1.ops ≤ c.ops + options.limit patience ∧
        (r.2.2 = .ok () →
          (¬ c.Vacant → r.1.ops = c.ops + r.2.1.steps) ∧
            (c.Vacant → r.1.ops = c.ops ∧ r.2.1.steps = 1)) := by
  intro limit start
  refine ⟨fun k m e h hdone => ?_, fun hendless => ?_, fun options calls patience => ?_⟩
  · obtain ⟨hend, hstopped⟩ := execute_advance hparsed b patience h
    exact ⟨(Machine.steps_of_advance h).trans (Nat.zero_add k), hend hdone, hstopped⟩
  · obtain ⟨⟨m, e⟩, h⟩ := Option.isSome_iff_exists.1 (hendless (limit + 1))
    exact (execute_advance hparsed b patience h).2 (by omega)
  · intro c r
    have hready : c.Ready := (busy_of_idle (b := new options) rfl).ready.after calls
    have hoptions : c.options = options := ((Kept.new options).after calls).setUp
    refine ⟨?_, fun hok => finish_counts hready hok⟩
    rw [← hoptions]
    exact ops_finish_le c patience

/-- A script that puts out a line, and its program. -/
def printsLetter : String × Script.Program :=
  ("window.alert('a');",
    ⟨[.expr ⟨1, 1⟩ (.call ⟨1, 1⟩ "window.alert" [.string ⟨1, 14⟩ "a"])]⟩)

theorem printsLetter_counts :
    (∃ m e, m.steps = 3 ∧
      (new .standard).execute 0 printsLetter.1 =
        (⟨.standard, .idle, e, some m⟩, ⟨3, 2⟩, .ok ())) ∧
      ((new { Options.standard with maxSteps := some 2 }).execute 0 printsLetter.1).2.2 =
        .error (.stepBudget 2) := by
  have hparsed : parseProgram printsLetter.1 = .ok printsLetter.2 := by cbv
  obtain ⟨⟨m, e⟩, hadvance⟩ := Option.isSome_iff_exists.1
    (show ((Machine.ofProgram printsLetter.2).advance capabilities 3
      (new .standard).effects.clear).isSome = true by decide +kernel)
  have hdone : m.isDone = true := by
    have hall : (((Machine.ofProgram printsLetter.2).advance capabilities 3
        (new .standard).effects.clear).map fun r => r.1.isDone) = some true := by decide +kernel
    rw [hadvance] at hall
    exact Option.some.inj hall
  obtain ⟨hsteps, hend, -⟩ :=
    (execute_counts hparsed (new .standard) 0).1 3 m e hadvance hdone
  obtain ⟨-, -, hstopped⟩ :=
    (execute_counts hparsed (new { Options.standard with maxSteps := some 2 }) 0).1 3 m e
      hadvance hdone
  exact ⟨⟨m, e, hsteps, hend (by decide)⟩, (hstopped (by decide)).1⟩

/-- **A script without instructions is counted as one.**  It is done before its first instruction;
the run counts a step, and does not fit into a budget of no steps. -/
theorem empty_script_counted :
    parseProgram "// engine.logout();\n" = .ok ⟨[]⟩ ∧
      (Machine.ofProgram ⟨[]⟩).isDone = true ∧
      ((new .standard).execute 0 "// engine.logout();\n").2 = (⟨1, 0⟩, .ok ()) ∧
      ((new .standard).execute 0 "// engine.logout();\n").1.ops = 0 ∧
      ((new { Options.standard with maxSteps := some 0 }).execute 0
        "// engine.logout();\n").2.2 = .error (.stepBudget 0) :=
  ⟨by cbv, by decide, by decide +kernel, by decide +kernel, by decide +kernel⟩

end Sandbox
end VisualBlocks

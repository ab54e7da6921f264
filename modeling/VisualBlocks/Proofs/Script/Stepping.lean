import VisualBlocks.Proofs.Script.Callees
import VisualBlocks.Script.Machine

/-!
# One instruction at a time

What one instruction can do to a machine and to its host is said here once: it leaves the code as it
is, counts itself, and **makes at most one call on the host**, of a function that the code names
(`step_host`).  So what the calls of a host keep, whole runs keep.

`Machine.advance` makes a given number of instructions, with no regard to any budget.  A machine
comes to its end after exactly `n` of them if `advance` leads to one that is done; it never halts if
`advance` leads somewhere for every number.
-/

set_option autoImplicit false

namespace VisualBlocks
namespace Script

variable {σ : Type} {host : Host σ}

/-! ## What an instruction does -/

theorem callFunction_host (host : Host σ) (s : σ) (name : String) (args : List Value) :
    (callFunction host s name args).2 = s ∨
      (callFunction host s name args).2 = (host.call s name args).2 := by
  rw [callFunction]
  split
  · exact .inl rfl
  · split
    all_goals
      next heq =>
        rw [heq]
        exact .inr rfl

/-- What an instruction leaves behind of a machine and its host: the code, the count, and the host
as it was or after one call. -/
structure Executes (host : Host σ) (m : Machine) (s : σ) (op : Op)
    (r : Machine × σ × Option RuntimeFault) : Prop where
  code : r.1.code = m.code
  steps : r.1.steps = m.steps
  host : r.2.1 = s ∨ ∃ name ∈ op.callee?, ∃ args, r.2.1 = (host.call s name args).2

theorem execute_executes (host : Host σ) (m : Machine) (s : σ) (op : Op) :
    Executes host m s op (execute host m s op) := by
  cases op with
  | call name argc =>
    have hcall := callFunction_host host s name (m.stack.take argc).reverse
    rw [execute]
    split
    · exact ⟨rfl, rfl, .inl rfl⟩
    · dsimp only
      split
      all_goals
        next heq =>
          rw [heq] at hcall
          exact ⟨rfl, rfl, hcall.imp_right fun h => ⟨name, rfl, _, h⟩⟩
  | push | jump => exact ⟨rfl, rfl, .inl rfl⟩
  | load | declare | store | pop | unary | jumpIfFalse =>
    rw [execute]
    split <;> exact ⟨rfl, rfl, .inl rfl⟩
  | binary =>
    rw [execute]
    split <;> exact ⟨rfl, rfl, .inl rfl⟩
  | andJump | orJump =>
    rw [execute]
    split
    · split <;> exact ⟨rfl, rfl, .inl rfl⟩
    · exact ⟨rfl, rfl, .inl rfl⟩

namespace Machine

/-! ## What a step does -/

theorem step_of_isDone {m : Machine} {s : σ} (h : m.isDone = true) :
    m.step host s = (m, s, .ok .done) := by
  have hip : m.code[m.ip]? = none := Array.getElem?_eq_none (of_decide_eq_true h)
  rw [Machine.step, hip]

/-- The step of a machine that is not done, with what its instruction does. -/
theorem step_cases (host : Host σ) {m : Machine} (h : m.isDone = false) (s : σ) :
    ∃ i ∈ m.code.toList, ∃ m' s', ∃ fault,
      Executes host { m with ip := m.ip + 1, steps := m.steps + 1 } s i.op (m', s', fault) ∧
      m.step host s = (m', s', match fault with
        | none => .ok (if m'.isDone then .done else .running)
        | some fault => .error ⟨fault, i.pos⟩) := by
  have hip : m.ip < m.code.size := by
    simpa [isDone] using h
  have hi : m.code[m.ip]? = some m.code[m.ip] := Array.getElem?_eq_getElem hip
  have hmem : m.code[m.ip] ∈ m.code.toList := Array.mem_def.1 (Array.getElem_mem hip)
  have hexecutes := execute_executes host
    { m with ip := m.ip + 1, steps := m.steps + 1 } s m.code[m.ip].op
  rcases hrun : execute host { m with ip := m.ip + 1, steps := m.steps + 1 } s m.code[m.ip].op
    with ⟨m', s', fault⟩
  rw [hrun] at hexecutes
  refine ⟨_, hmem, m', s', fault, hexecutes, ?_⟩
  rw [Machine.step, hi]
  dsimp only
  rw [hrun]
  cases fault <;> rfl

/-- No step changes the code. -/
theorem step_code (host : Host σ) (m : Machine) (s : σ) : (m.step host s).1.code = m.code := by
  cases h : m.isDone with
  | true => rw [step_of_isDone h]
  | false =>
    obtain ⟨i, -, m', s', fault, hexecutes, hstep⟩ := step_cases host h s
    rw [hstep]
    exact hexecutes.code

/-- A step counts itself. -/
theorem step_steps (host : Host σ) {m : Machine} (h : m.isDone = false) (s : σ) :
    (m.step host s).1.steps = m.steps + 1 := by
  obtain ⟨i, -, m', s', fault, hexecutes, hstep⟩ := step_cases host h s
  rw [hstep]
  exact hexecutes.steps

/-- **A step makes at most one call on the host**, of a function that the code names. -/
theorem step_host (host : Host σ) (m : Machine) (s : σ) :
    (m.step host s).2.1 = s ∨ ∃ name ∈ codeCallees m.code.toList, ∃ args,
      (m.step host s).2.1 = (host.call s name args).2 := by
  cases h : m.isDone with
  | true =>
    rw [step_of_isDone h]
    exact .inl rfl
  | false =>
    obtain ⟨i, hi, m', s', fault, hexecutes, hstep⟩ := step_cases host h s
    rw [hstep]
    refine hexecutes.host.imp_right ?_
    rintro ⟨name, hname, args, hcall⟩
    exact ⟨name, List.mem_filterMap.2 ⟨i, hi, hname⟩, args, hcall⟩

/-- A step that does not fail says whether another instruction follows. -/
theorem step_status {m m' : Machine} {s s' : σ} {status : Status} (h : m.isDone = false)
    (hstep : m.step host s = (m', s', .ok status)) :
    status = if m'.isDone then .done else .running := by
  obtain ⟨i, -, u, t, fault, -, hcases⟩ := step_cases host h s
  rw [hcases] at hstep
  cases fault with
  | none =>
    cases hstep
    rfl
  | some fault => cases hstep

/-- A fault is that of one of the instructions. -/
theorem step_error {m : Machine} {s : σ} {e : RuntimeError}
    (h : (m.step host s).2.2 = .error e) : ∃ i ∈ m.code.toList, i.pos = e.pos := by
  cases hdone : m.isDone with
  | true =>
    rw [step_of_isDone hdone] at h
    cases h
  | false =>
    obtain ⟨i, hi, m', s', fault, -, hstep⟩ := step_cases host hdone s
    rw [hstep] at h
    cases fault with
    | none => cases h
    | some fault =>
      cases h
      exact ⟨i, hi, rfl⟩

/-! ## A number of instructions -/

/-- The machine and its host `n` instructions later, if none of them fails and none is missing. -/
def advance (host : Host σ) : Nat → Machine → σ → Option (Machine × σ)
  | 0, m, s => some (m, s)
  | n + 1, m, s =>
    if m.isDone then none
    else
      match m.step host s with
      | (m, s, .ok _) => advance host n m s
      | (_, _, .error _) => none

/-- A machine that makes an instruction is not done and makes it without a fault. -/
theorem advance_succ {n : Nat} {m : Machine} {s : σ} {r : Machine × σ}
    (h : m.advance host (n + 1) s = some r) :
    m.isDone = false ∧ ∃ m' s' status, m.step host s = (m', s', .ok status) ∧
      m'.advance host n s' = some r := by
  rw [advance] at h
  cases hdone : m.isDone with
  | true =>
    rw [hdone] at h
    cases h
  | false =>
    rw [hdone] at h
    rcases hstep : m.step host s with ⟨m', s', e | status⟩
    · rw [hstep] at h
      cases h
    · rw [hstep] at h
      exact ⟨rfl, m', s', status, rfl, h⟩

/-- A machine that still goes on after some instructions was going on before. -/
theorem not_isDone_of_advance {n : Nat} {m m' : Machine} {s s' : σ}
    (h : m.advance host n s = some (m', s')) (hgoing : m'.isDone = false) : m.isDone = false := by
  cases n with
  | zero =>
    cases h
    exact hgoing
  | succ n => exact (advance_succ h).1

/-- Instructions are made one after the other. -/
theorem advance_add (n k : Nat) (m : Machine) (s : σ) :
    m.advance host (n + k) s = (m.advance host n s).bind fun r => r.1.advance host k r.2 := by
  induction n generalizing m s with
  | zero =>
    rw [Nat.zero_add]
    rfl
  | succ n ih =>
    rw [Nat.add_right_comm, advance, advance]
    cases m.isDone with
    | true => rfl
    | false =>
      rcases m.step host s with ⟨m', s', e | status⟩
      · rfl
      · exact ih m' s'

/-- A machine that makes more than `n` instructions goes on after `n` of them. -/
theorem exists_advance {n k : Nat} {m : Machine} {s : σ} {r : Machine × σ} (hlt : n < k)
    (h : m.advance host k s = some r) :
    ∃ m' s', m.advance host n s = some (m', s') ∧ m'.isDone = false := by
  obtain ⟨j, rfl⟩ := Nat.exists_eq_add_of_lt hlt
  rw [Nat.add_assoc, advance_add] at h
  obtain ⟨⟨m', s'⟩, hbefore, hrest⟩ := Option.bind_eq_some_iff.1 h
  exact ⟨m', s', hbefore, (advance_succ hrest).1⟩

/-- The last of some instructions. -/
theorem advance_last {n : Nat} {m m' : Machine} {s s' : σ}
    (h : m.advance host (n + 1) s = some (m', s')) :
    ∃ u t status, m.advance host n s = some (u, t) ∧ u.isDone = false ∧
      u.step host t = (m', s', .ok status) := by
  rw [advance_add] at h
  obtain ⟨⟨u, t⟩, hbefore, hlast⟩ := Option.bind_eq_some_iff.1 h
  obtain ⟨hgoing, v, w, status, hstep, hend⟩ := advance_succ hlast
  cases hend
  exact ⟨u, t, status, hbefore, hgoing, hstep⟩

/-- **A machine counts its instructions.** -/
theorem steps_of_advance {n : Nat} {m m' : Machine} {s s' : σ}
    (h : m.advance host n s = some (m', s')) : m'.steps = m.steps + n := by
  induction n generalizing m s with
  | zero =>
    cases h
    rfl
  | succ n ih =>
    obtain ⟨hdone, u, t, status, hstep, hrest⟩ := advance_succ h
    have hsteps := step_steps host hdone s
    rw [hstep] at hsteps
    rw [ih hrest, hsteps, Nat.add_right_comm, Nat.add_assoc]

end Machine

end Script
end VisualBlocks

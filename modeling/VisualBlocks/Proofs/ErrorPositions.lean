import VisualBlocks.Proofs.Sandbox.Driving
import VisualBlocks.Proofs.Script.Cutting
import VisualBlocks.Proofs.Script.Stepping
import VisualBlocks.Proofs.Script.Termination

/-!
# Where errors are reported

A position is made when a character is scanned and is only passed on from then on: from tokens to
expressions and statements, from these to instructions, from an instruction to the fault that it
meets.  So **all positions that a user is shown are places in the script** (`positions_true`).

* What scanning says of tokens is in `Cutting`: each stands where counting finds it.
* What parsing says of code is in `Termination`: it points to where tokens stand.
* `Sandbox.Within`: the machine of a sandbox points to certain places.  Every step keeps that, and
  its fault is at one of these places.
-/

set_option autoImplicit false

namespace VisualBlocks

open Script

/-! ## Scripts -/

namespace Script

/-- A place in a script: in front of one of its characters or at its end. -/
def IsPlace (source : String) (p : Position) : Prop :=
  ∃ before rest, source.toList = before ++ rest ∧ p = placeBehind before

variable {source : String}

theorem Cut.isPlace {ts : List Token} {rest : List Char} (h : Cut [] ts source.toList rest)
    {t : Token} (ht : t ∈ ts) : IsPlace source t.pos := by
  obtain ⟨before, after, hsource, -, hpos⟩ := h.exists_place ht
  exact ⟨before, after, hsource, hpos⟩

theorem isPlace_end (source : String) : IsPlace source (placeBehind source.toList) :=
  ⟨source.toList, [], (List.append_nil _).symm, rfl⟩

/-- **A program points into its script**, and so does the fault of one that cannot be read. -/
theorem parseProgram_within (source : String) :
    (∀ p, parseProgram source = .ok p → PointsInto (IsPlace source) p.code) ∧
      ∀ e, parseProgram source = .error e → IsPlace source e.pos := by
  obtain ⟨hok, herror⟩ := tokensFrom_cut [] source.toList
  rw [parseProgram]
  cases htokens : tokenize source with
  | ok ts =>
    obtain ⟨us, rfl, hus⟩ := hok ts htokens
    refine parseTokens_within fun t ht => ?_
    rw [closed_closing, List.mem_append, List.mem_singleton] at ht
    rcases ht with ht | rfl
    · exact hus.isPlace ht
    · exact isPlace_end source
  | error e =>
    obtain ⟨-, taken, rest, hsource, -, hpos, -⟩ := herror e htokens
    refine ⟨fun _ h => (by cases h), fun e' he => ?_⟩
    cases he
    exact ⟨taken, rest, hsource, hpos⟩

/-! ## Machines -/

/-- The fault that ends a run is that of an instruction. -/
theorem Machine.run_fault {σ : Type} (host : Host σ) {S : Position → Prop} (limit : Nat)
    {m : Machine} (h : PointsInto S m.code.toList) (s : σ) {e : RuntimeError}
    (hrun : (Machine.run host limit m s).2.2 = .fault e) : S e.pos := by
  induction limit generalizing m s with
  | zero => cases hrun
  | succ limit ih =>
    rw [Machine.run] at hrun
    have hcode := m.step_code host s
    rcases hstep : m.step host s with ⟨m', s', error | _ | _⟩ <;> rw [hstep] at hrun hcode
    · cases hrun
      have hfault : (m.step host s).2.2 = .error e := by rw [hstep]
      obtain ⟨i, hi, hpos⟩ := m.step_error hfault
      exact hpos ▸ h i hi
    · exact ih (hcode ▸ h) s' hrun
    · cases hrun

end Script

/-! ## Sandboxes -/

namespace Sandbox

/-- The machine of a sandbox points into `S`. -/
def Within (S : Position → Prop) (b : Sandbox) : Prop :=
  ∀ m ∈ b.machine, PointsInto S m.code.toList

variable {S : Position → Prop} {b : Sandbox}

theorem Within.step (h : b.Within S) : b.step.1.Within S := by
  obtain ⟨options, _ | _, effects, _ | m⟩ := b
  case running.some =>
    rw [step_running]
    intro m' hm'
    cases hm'
    rw [m.step_code]
    exact h m rfl
  all_goals exact h

theorem Within.fault (h : b.Within S) {e : RuntimeError} (he : b.step.2 = .error e) : S e.pos := by
  obtain ⟨options, _ | _, effects, _ | m⟩ := b
  case running.some =>
    rw [step_running] at he
    cases hstep : (m.step capabilities effects).2.2 with
    | error e' =>
      rw [hstep] at he
      cases he
      obtain ⟨i, hi, hpos⟩ := m.step_error hstep
      exact hpos ▸ h m rfl i hi
    | ok status =>
      rw [hstep] at he
      cases he
  all_goals cases he

theorem mem_faults {reports : List (Except RuntimeError State)} {e : RuntimeError} :
    e ∈ faults reports ↔ .error e ∈ reports := by
  rw [faults, List.mem_filterMap]
  constructor
  · rintro ⟨_ | _, hmem, hreport⟩
    · exact Option.some.inj hreport ▸ hmem
    · cases hreport
  · exact fun hmem => ⟨_, hmem, rfl⟩

/-- The faults of a run are at places that its machine points to. -/
theorem Within.faults (h : b.Within S) (n : Nat) {e : RuntimeError}
    (he : e ∈ faults (b.stepTimes n).2) : S e.pos := by
  induction n generalizing b with
  | zero => cases he
  | succ n ih =>
    rcases List.mem_cons.1 (mem_faults.1 he) with hfirst | hlater
    · exact h.fault hfirst.symm
    · exact ih h.step (mem_faults.2 hlater)

theorem start_within (b : Sandbox) (source : String) :
    (b.start source).1.Within (IsPlace source) ∧
      ∀ e, (b.start source).2 = .error e → IsPlace source e.pos := by
  obtain ⟨hok, herror⟩ := parseProgram_within source
  rw [start]
  cases hparsed : parseProgram source with
  | error e => exact ⟨fun _ h => (by cases h), fun e' he => by cases he; exact herror e hparsed⟩
  | ok p =>
    refine ⟨fun m hm => ?_, fun _ h => by cases h⟩
    cases hm
    rw [Machine.ofProgram, Machine.load, List.toList_toArray]
    exact hok p hparsed

/-- A run that is driven ends with a fault of its steps, or with none. -/
theorem finish_error {patience : Nat} {error : Error}
    (h : (b.finish patience).2.2 = .error error) :
    (∃ n, ∃ e ∈ faults (b.stepTimes n).2, error = .runtime e) ∨
      ∃ limit, error = .stepBudget limit := by
  rw [finish, (drive_eq _ _ _ b).2] at h
  cases hfaults : faults (b.stepTimes (b.options.limit patience)).2 with
  | nil =>
    rw [hfaults, outcome] at h
    split at h <;> cases h
    exact .inr ⟨_, rfl⟩
  | cons first rest =>
    rw [hfaults] at h
    cases h
    exact .inl ⟨_, first, hfaults ▸ List.mem_cons_self, rfl⟩

/-- The place that an error speaks of, if it speaks of one. -/
def Error.pos? : Error → Option Position
  | .parse e => some e.pos
  | .runtime e => some e.pos
  | .stepBudget _ => none

theorem execute_within (b : Sandbox) (patience : Nat) (source : String) {error : Error}
    (h : (b.execute patience source).2.2 = .error error) :
    ∀ p ∈ error.pos?, IsPlace source p := by
  obtain ⟨hwithin, hstart⟩ := b.start_within source
  rw [execute] at h
  rcases hrun : b.start source with ⟨c, e | ⟨⟩⟩ <;> rw [hrun] at h hwithin hstart
  · cases h
    rintro _ ⟨⟩
    exact hstart e rfl
  · rcases finish_error h with ⟨n, e, he, rfl⟩ | ⟨limit, rfl⟩
    · rintro _ ⟨⟩
      exact hwithin.faults n he
    · rintro _ ⟨⟩

end Sandbox

/-- **Positions are true.**  A script that can be cut into tokens is made of them and of what may
stand between them; each token stands where counting lines and characters finds it, in order, and
the last one stands at the end.  One that cannot be is made of tokens and fillers up to the
offending character, or the beginning of a string or comment that is not closed, and the fault is
reported there.  So all errors, of reading a script and of running it, are reported at places in
it. -/
theorem positions_true (source : String) :
    (∀ ts, tokenize source = .ok ts →
      ∃ us, ts = us ++ [Token.closing (placeBehind source.toList)] ∧
        Cut [] us source.toList [] ∧ ts.Pairwise fun t u => t.pos.Before u.pos) ∧
    (∀ e, tokenize source = .error e →
      ∃ us taken rest, source.toList = taken ++ rest ∧ Cut [] us source.toList rest ∧
        e.pos = placeBehind taken ∧ Offends e.fault rest) ∧
    (∀ e, parseProgram source = .error e → IsPlace source e.pos) ∧
    (∀ p, parseProgram source = .ok p → ∀ (σ : Type) (host : Host σ) limit s e,
      (Machine.run host limit (.ofProgram p) s).2.2 = .fault e → IsPlace source e.pos) ∧
    ∀ b : Sandbox,
      (∀ e, (b.start source).2 = .error e → IsPlace source e.pos) ∧
      (∀ n, ∀ e ∈ Sandbox.faults ((b.start source).1.stepTimes n).2, IsPlace source e.pos) ∧
      ∀ patience error, (b.execute patience source).2.2 = .error error →
        ∀ p ∈ error.pos?, IsPlace source p := by
  obtain ⟨htokens, hfault⟩ := tokensFrom_cut [] source.toList
  obtain ⟨hprogram, hparse⟩ := parseProgram_within source
  refine ⟨fun ts hts => ?_, hfault, hparse, fun p hp σ host limit s e hrun => ?_, fun b => ?_⟩
  · obtain ⟨us, rfl, hus⟩ := htokens ts hts
    exact ⟨us, rfl, hus, hus.ordered⟩
  · refine Machine.run_fault host limit ?_ s hrun
    rw [Machine.ofProgram, Machine.load, List.toList_toArray]
    exact hprogram p hp
  · obtain ⟨hwithin, hstart⟩ := b.start_within source
    exact ⟨hstart, fun n e he => hwithin.faults n he,
      fun patience error herror => b.execute_within patience source herror⟩

/-- A script with a comment and a string that is not closed on its line. -/
def unclosedScript : String := "a = 1; // one\n  b = 'it\\'s\n;"

theorem unclosedScript_reported :
    ∃ us taken rest, unclosedScript.toList = taken ++ rest ∧
      Cut [] us unclosedScript.toList rest ∧ ⟨2, 7⟩ = placeBehind taken ∧
      Offends .unterminatedString rest :=
  (positions_true unclosedScript).2.1 ⟨.unterminatedString, ⟨2, 7⟩⟩ (by decide +kernel)

end VisualBlocks

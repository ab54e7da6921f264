import VisualBlocks.Proofs.Programs
import VisualBlocks.Proofs.Sandbox.Driving
import VisualBlocks.Proofs.Script.Agreement

/-!
# Runs without faults

A generated program declares every variable that it reads before it reads it, and the functions that
it calls are there.  So **its runs end well or run out of steps** (`execute_faultless`), with one
exception: a number that is infinite or not a number is written as a word, the word is read as a
name, and nothing declares the name (`infinite_number_faults`).

* `execute_ended`: a run of the sandbox ends as the run of its machine does.
* `Script.Scoped.fault`: the machine only faults over names that nothing declares.  Its run is
  followed back to the evaluation of the program, and that is where scopes are about.
-/

set_option autoImplicit false

namespace VisualBlocks

open Script (Machine Program Scoped parseProgram)

/-! ## Programs in a scope -/

namespace Script

/-- **A program in a scope only faults over odd names**, if all other names of the scope have a
value at its start. -/
theorem Scoped.fault {σ : Type} {host : Host σ} {S : Scope} {odd : String → Prop} {p : Program}
    (h : Scoped S p.body) (hcovers : Covers .empty odd S) (hserves : Serves host S)
    {limit : Nat} {s t : σ} {m : Machine} {e : RuntimeError}
    (hrun : (Machine.ofProgram p).run host limit s = (m, t, .fault e)) : Odd odd e := by
  obtain ⟨⟨w, fault⟩, hends⟩ := ends_of_run hrun RunEnd.noConfusion
  obtain ⟨limit', m', hrun', -, -⟩ := run_of_ends hends
  have hlate := run_stable hrun RunEnd.noConfusion (Nat.le_max_left limit limit')
  have hlate' := run_stable hrun' (RunEnd.ofFault_ne_limit fault) (Nat.le_max_right limit limit')
  have hfault : RunEnd.ofFault fault = .ofFault (some e) := by
    rw [hlate] at hlate'
    exact (congrArg (fun r => r.2.2) hlate').symm
  have hodd := (Runs.scoped hends h hcovers hserves).2
  exact hodd e (RunEnd.ofFault_injective hfault)

end Script

namespace Sandbox

/-! ## The machine of a sandbox -/

/-- How a run of the sandbox ends whose machine ends so. -/
def ended (limit : Nat) : Script.RunEnd → Except Error Unit
  | .done => .ok ()
  | .limit => .error (.stepBudget limit)
  | .fault e => .error (.runtime e)

/-- A sandbox steps as long as its machine does. -/
theorem drive_running (limit budget : Nat) (p : Progress) (options : Options) (e : Effects)
    (m : Machine) :
    (drive limit budget p ⟨options, .running, e, some m⟩).2.2 =
      ended limit (m.run capabilities budget e).2.2 := by
  induction budget generalizing p e m with
  | zero => rfl
  | succ budget ih =>
    rw [drive, Machine.run, step_running]
    rcases m.step capabilities e with ⟨m', e', error | _ | _⟩
    · rfl
    · exact ih _ e' m'
    · have hidle (p : Progress) : drive limit budget p ⟨options, .idle, e', some m'⟩ =
          (⟨options, .idle, e', some m'⟩, p, .ok ()) := drive_of_idle rfl budget p
      exact congrArg (fun r => r.2.2) (hidle _)

/-- **A run of the sandbox ends as the run of its machine does.** -/
theorem execute_ended {source : String} {program : Program}
    (hparsed : parseProgram source = .ok program) (b : Sandbox) (patience : Nat) :
    (b.execute patience source).2.2 = ended (b.options.limit patience)
      ((Machine.ofProgram program).run capabilities (b.options.limit patience) b.effects.clear).2.2 := by
  rw [execute, start, hparsed]
  exact drive_running _ _ _ _ _ _

/-- The functions that generated text calls return a value in the sandbox. -/
theorem serves_capabilities (odd : String → Prop) :
    Script.Serves capabilities (Generation.outerScope odd) := by
  intro f hf e args
  have hnames : f ∈ ["Math.pow", "String", "drawCircle", "window.alert", "console.log"] := hf
  simp only [List.mem_cons, List.not_mem_nil, or_false] at hnames
  rcases hnames with rfl | rfl | rfl | rfl | rfl <;> exact ⟨_, _, rfl⟩

/-- **A program that names nothing outside ends well or at the limit**, or it faults over an odd
name. -/
theorem execute_scoped {source : String} {program : Program} {odd : String → Prop}
    (hparsed : parseProgram source = .ok program)
    (hscoped : Scoped (Generation.outerScope odd) program.body) (b : Sandbox) (patience : Nat) :
    ((b.execute patience source).2.2 = .ok () ∨
        (b.execute patience source).2.2 = .error (.stepBudget (b.options.limit patience))) ∨
      ∃ word pos, odd word ∧
        (b.execute patience source).2.2 = .error (.runtime ⟨.notDefined word, pos⟩) := by
  rw [execute_ended hparsed]
  rcases hrun : (Machine.ofProgram program).run capabilities (b.options.limit patience)
    b.effects.clear with ⟨m, e, _ | _ | fault⟩
  · exact .inl (.inl rfl)
  · exact .inl (.inr rfl)
  · obtain ⟨word, hword, hfault⟩ :=
      hscoped.fault (fun _ hx => .inr hx) (serves_capabilities odd) hrun
    refine .inr ⟨word, fault.pos, hword, ?_⟩
    rw [← hfault]
    rfl

end Sandbox

/-! ## Workspaces -/

/-- Is the word there for a number without digits in a field of the workspace? -/
def Workspace.OddWord (w : Workspace) (word : String) : Prop :=
  ∃ b ∈ w.blocks, word ∈ BlockTree.oddWords b.type b.fields

namespace Workspace

variable {w : Workspace}

theorem OddWord.word {word : String} (h : w.OddWord word) : word = "NaN" ∨ word = "inf" := by
  obtain ⟨b, -, hword⟩ := h
  obtain ⟨x, -, hx⟩ := Option.bind_eq_some_iff.1 (Option.mem_toList.1 hword)
  exact Number.literalWord?_cases hx

/-- Finite numbers have digits. -/
theorem not_oddWord (h : ∀ b ∈ w.blocks, ∀ x ∈ BlockTree.ownNumber? b.type b.fields, x.isFinite = true)
    (word : String) : ¬ w.OddWord word := by
  rintro ⟨b, hb, hword⟩
  rw [BlockTree.oddWords_eq_nil (h b hb)] at hword
  cases hword

/-- The program of a linked workspace names nothing that it does not declare but odd words. -/
theorem Linked.scoped (h : Linked w) {v : Vocabulary}
    (honeLine : w.UnknownOnOneLine v.preset.generator) :
    ∃ program, parseProgram (v.preset.generator.code w) = .ok program ∧
      Scoped (Generation.outerScope w.OddWord) program.body := by
  obtain ⟨forest, hforest⟩ := h.exists_forest
  obtain ⟨-, -, program, -, -, hparsed, -, -, -, hscoped, -⟩ := h.generated honeLine hforest
  refine ⟨program, hparsed, hscoped.mono ⟨?_, fun _ hf => hf⟩⟩
  rintro word ⟨t, ht, blk, hblk, hword⟩
  obtain ⟨block, hblock, -, hnode⟩ := exists_block_of_holds (hforest.held t ht) hblk
  rw [← hnode] at hword
  exact ⟨block, hblock, hword⟩

end Workspace

namespace Sandbox

/-- **Generated programs do not fault over anything but numbers without digits.**  The program of a
workspace whose blocks have rules names no variable that is not declared before, and no function
that is not there.  If its numbers are finite, then no run faults; else a fault is over the word for
one of them. -/
theorem execute_faultless (v : Vocabulary) (w : Workspace) (hreachable : w.Reachable)
    (hruled : ∀ b ∈ w.blocks, v.preset.generator.knows b.type = true) :
    (∃ program, parseProgram (v.preset.generator.code w) = .ok program ∧
        Scoped (Generation.outerScope w.OddWord) program.body) ∧
      ∀ (b : Sandbox) (patience : Nat),
        ((∀ block ∈ w.blocks, ∀ x ∈ BlockTree.ownNumber? block.type block.fields,
            x.isFinite = true) →
          (b.execute patience (v.preset.generator.code w)).2.2 = .ok () ∨
            (b.execute patience (v.preset.generator.code w)).2.2 =
              .error (.stepBudget (b.options.limit patience))) ∧
        ∀ error, (b.execute patience (v.preset.generator.code w)).2.2 = .error (.runtime error) →
          ∃ word, w.OddWord word ∧ (word = "NaN" ∨ word = "inf") ∧
            error.fault = .notDefined word := by
  have honeLine := Workspace.unknownOnOneLine_of_knows hruled
  obtain ⟨program, hparsed, hscoped⟩ := hreachable.linked.scoped honeLine
  refine ⟨⟨program, hparsed, hscoped⟩, fun b patience => ?_⟩
  have hends := execute_scoped hparsed hscoped b patience
  refine ⟨fun hfinite => hends.resolve_right ?_, fun error herror => ?_⟩
  · rintro ⟨word, -, hword, -⟩
    exact Workspace.not_oddWord hfinite word hword
  · rw [herror] at hends
    obtain (h | h) | ⟨word, pos, hword, h⟩ := hends
    · cases h
    · cases h
    · obtain rfl := Error.runtime.inj (Except.error.inj h)
      exact ⟨word, hword, hword.word, rfl⟩

/-- A block that prints a number, as the operations make it. -/
def numberPrint (text : String) : Workspace :=
  ⟨[{ Block.fresh "number" "math_number" with
      fields := ⟨[("NUM", text)]⟩
      parent := some ⟨"print", .input⟩ },
    { Block.fresh "print" "text_print" with inputs := ⟨[("TEXT", "number")]⟩ }]⟩

theorem numberPrint_reachable (text : String) : (numberPrint text).Reachable :=
  (((Workspace.Reachable.empty.step (.add "number" "math_number" rfl)).step
    (.add "print" "text_print" rfl)).step (.setField "number" "NUM" text rfl)).step
    (.connectInput "print" "TEXT" "number" rfl)

theorem numberPrint_faultless :
    ((new .standard).execute 0
        (Vocabulary.standard.preset.generator.code (numberPrint "1e300"))).2.2 = .ok () ∨
      ((new .standard).execute 0
        (Vocabulary.standard.preset.generator.code (numberPrint "1e300"))).2.2 =
          .error (.stepBudget 1000000) :=
  ((execute_faultless .standard (numberPrint "1e300") (numberPrint_reachable "1e300")
    (by decide)).2 (new .standard) 0).1 (by decide +kernel)

/-- **A number that is too large faults**: it is printed as a word, and the word is no name of the
program. -/
theorem infinite_number_faults :
    (numberPrint "1e400").Reachable ∧
      (∀ b ∈ (numberPrint "1e400").blocks,
        Vocabulary.standard.preset.generator.knows b.type = true) ∧
      ((new .standard).execute 0
        (Vocabulary.standard.preset.generator.code (numberPrint "1e400"))).2.2 =
          .error (.runtime ⟨.notDefined "inf", ⟨1, 14⟩⟩) :=
  ⟨numberPrint_reachable "1e400", by decide, by decide +kernel⟩

end Sandbox
end VisualBlocks

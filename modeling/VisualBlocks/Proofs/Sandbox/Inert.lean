import VisualBlocks.Proofs.Programs
import VisualBlocks.Proofs.Sandbox.Driving
import VisualBlocks.Proofs.Script.Stepping

/-!
# Text does nothing

A script in the sandbox reaches its surroundings through a few functions only, so **a script that
calls none of them leaves nothing behind** (`effects_of_quiet`), however far it runs.  A step calls
at most one function, and one that the code names, so steps leave the effects as they are, and so do
runs.

**What stands in a workspace does not become an effect** (`execute_inert`): without blocks that
print or draw the generated script calls none of these functions, whatever texts the blocks hold.
The types and identifiers of blocks without a rule are the exception.  They stand in comments to
the end of the line as they are, so a line break in one of them ends the comment
(`line_break_ends_comment`).
-/

set_option autoImplicit false

namespace VisualBlocks
namespace Sandbox

open Script (Machine bodyCallees codeCallees parseProgram)

/-! ## Steps -/

/-- No capability is among the functions. -/
def Quiet (callees : List String) : Prop := ∀ f ∈ callees, f ∉ capabilityNames

/-- The host does nothing on a call of a function that it has not. -/
theorem call_unknown {name : String} (h : name ∉ capabilityNames) (e : Effects)
    (args : List Script.Value) : capabilities.call e name args = (none, e) := by
  have hdraw : ¬ name = drawCircle := fun heq => h (heq ▸ List.mem_cons_self)
  have hprint : ¬ outputNames.contains name = true := fun hmem =>
    h (List.mem_cons_of_mem _ (List.contains_iff_mem.1 hmem))
  show (if name = drawCircle then _ else if outputNames.contains name then _ else _) = _
  rw [if_neg hdraw, if_neg hprint]

/-- **A step that can call no capability leaves the effects as they are**, and the code too. -/
theorem step_quiet {m : Machine} (h : Quiet (codeCallees m.code.toList)) (e : Effects) :
    (m.step capabilities e).1.code = m.code ∧ (m.step capabilities e).2.1 = e := by
  refine ⟨m.step_code capabilities e, ?_⟩
  rcases m.step_host capabilities e with hsame | ⟨name, hname, args, hcall⟩
  · exact hsame
  · rw [hcall, call_unknown (h name hname)]

/-! ## Runs -/

/-- A sandbox with the given effects, whose machine calls no capability. -/
structure Inert (e : Effects) (b : Sandbox) : Prop where
  effects : b.effects = e
  quiet : ∀ m ∈ b.machine, Quiet (codeCallees m.code.toList)

theorem Inert.step {e : Effects} {b : Sandbox} (h : Inert e b) : Inert e b.step.1 := by
  obtain ⟨options, _ | _, effects, _ | m⟩ := b
  case running.some =>
    obtain ⟨rfl, hquiet⟩ := h
    have hm := hquiet m rfl
    obtain ⟨hcode, heffects⟩ := step_quiet hm effects
    rw [step_running]
    refine ⟨heffects, fun m' hm' => ?_⟩
    obtain rfl := Option.some.inj hm'
    rwa [hcode]
  all_goals exact ⟨h.effects, h.quiet⟩

theorem Inert.finish {e : Effects} {b : Sandbox} (h : Inert e b) (patience : Nat) :
    Inert e (b.finish patience).1 :=
  finish_keeps (fun _ => Inert.step) (fun _ h => ⟨h.effects, h.quiet⟩) h patience

/-- **A script that calls no capability leaves nothing behind.** -/
theorem effects_of_quiet {source : String} {program : Script.Program}
    (hparsed : parseProgram source = .ok program) (hquiet : Quiet (bodyCallees program.body))
    (b : Sandbox) (patience : Nat) : (b.execute patience source).1.effects = b.effects.clear := by
  rw [execute, start, hparsed]
  refine (Inert.finish ⟨rfl, fun m hm => ?_⟩ patience).effects
  obtain rfl := Option.some.inj hm
  rw [Machine.ofProgram, Machine.load, List.toList_toArray, Script.Program.code,
    Script.codeCallees_body]
  exact hquiet

/-! ## Workspaces -/

theorem quiet_of_harmless {text : List Script.Lexeme} {body : List Script.Statement}
    (hwrites : Script.Writes text (Script.stripStatements body))
    (hharmless : Generation.Harmless text) : Quiet (bodyCallees body) := by
  intro f hf
  rw [← Script.bodyCallees_strip] at hf
  exact hharmless (.name f) (hwrites.named f hf) rfl

/-- **What stands in a workspace does not become an effect.**  No run of what is generated from a
workspace without blocks that print or draw puts anything out or draws anything, whatever the
blocks hold, if no block without a rule has a line break in its type or in its identifier. -/
theorem execute_inert (v : Vocabulary) (w : Workspace) (hreachable : w.Reachable)
    (hquiet : ∀ b ∈ w.blocks, b.type ∉ effectTypes)
    (honeLine : w.UnknownOnOneLine v.preset.generator) (b : Sandbox) (patience : Nat) :
    (b.execute patience (v.preset.generator.code w)).1.effects.output = #[] ∧
      (b.execute patience (v.preset.generator.code w)).1.effects.surface.isBlank = true := by
  have hlinked := hreachable.linked
  obtain ⟨forest, hforest⟩ := hlinked.exists_forest
  obtain ⟨chunks, pass, program, text, -, hparsed, -, hwrites, hharmless⟩ :=
    hlinked.program honeLine hforest
  have htrees : ∀ t ∈ forest, t.Quiet := by
    intro t ht blk hblk
    obtain ⟨block, hblock, -, hnode⟩ :=
      Workspace.exists_block_of_holds (hforest.held t ht) hblk
    rw [← hnode]
    exact hquiet block hblock
  rw [effects_of_quiet hparsed (quiet_of_harmless hwrites (hharmless htrees))]
  exact ⟨rfl, rfl⟩

/-- A block of an unknown type with comment marks and calls in its texts. -/
def disguised : Workspace :=
  ⟨[{ Block.fresh "*/ window.alert(1)" "*/ window.alert(2); //" with
      fields := ⟨[("TEXT", "\nwindow.alert(3);")]⟩ }]⟩

theorem disguised_inert :
    ((new .standard).execute 0 (Vocabulary.automation.preset.generator.code disguised)).1.effects.output
        = #[] ∧
      ((new .standard).execute 0
        (Vocabulary.automation.preset.generator.code disguised)).1.effects.surface.isBlank = true := by
  have hreachable : disguised.Reachable :=
    (Workspace.Reachable.empty.step (.add "*/ window.alert(1)" "*/ window.alert(2); //" rfl)).step
      (.setField "*/ window.alert(1)" "TEXT" "\nwindow.alert(3);" rfl)
  have honeLine : disguised.UnknownOnOneLine Vocabulary.automation.preset.generator := by
    intro b hb _
    obtain rfl := List.mem_singleton.1 hb
    decide
  exact execute_inert .automation disguised hreachable (by decide) honeLine _ 0

/-- A block of an unknown type with a line break in the type. -/
def brokenType : Workspace := ⟨[Block.fresh "a" "note\nwindow.alert('hi');//"]⟩

/-- A block of an unknown type with a line break in the identifier. -/
def brokenId : Workspace := ⟨[Block.fresh "a\nwindow.alert('hi');//" "note"]⟩

/-- **A line break ends the comment**, in a type and in an identifier: what follows it is run. -/
theorem line_break_ends_comment :
    (brokenType.Reachable ∧ (∀ b ∈ brokenType.blocks, b.type ∉ effectTypes) ∧
      ((new .standard).execute 0
        (Vocabulary.standard.preset.generator.code brokenType)).1.effects.output = #["hi"]) ∧
    brokenId.Reachable ∧ (∀ b ∈ brokenId.blocks, b.type ∉ effectTypes) ∧
      ((new .standard).execute 0
        (Vocabulary.standard.preset.generator.code brokenId)).1.effects.output = #["hi"] :=
  ⟨⟨Workspace.Reachable.empty.step (.add "a" "note\nwindow.alert('hi');//" rfl), by decide,
      by decide +kernel⟩,
    Workspace.Reachable.empty.step (.add "a\nwindow.alert('hi');//" "note" rfl), by decide,
      by decide +kernel⟩

end Sandbox
end VisualBlocks

import VisualBlocks.Sandbox.Capabilities
import VisualBlocks.Script.Parser

/-!
# Sandboxed runs

A sandbox is idle or in the middle of a run.  `start` begins a run and drops all that an earlier
one left; `step` makes one instruction of it; `finish` steps until the sandbox is idle again, within
a budget of steps if there is one.
-/

set_option autoImplicit false

namespace VisualBlocks

open Script (Machine ParseError RuntimeError)

namespace Sandbox

/-- How a sandbox is set up. -/
structure Options where
  /-- How long to pause between two steps, in milliseconds. -/
  stepDelay : Nat
  /-- The most steps that `finish` makes. -/
  maxSteps : Option Nat
  width : Nat
  height : Nat
deriving Repr, DecidableEq, Inhabited

/-- The usual set-up. -/
def Options.standard : Options := ⟨10, some 1000000, 400, 400⟩

/-- What a sandbox is doing. -/
inductive State where
  | idle
  | running
deriving Repr, DecidableEq, Inhabited

/-- Why a script did not run to its end. -/
inductive Error where
  | parse (e : ParseError)
  | runtime (e : RuntimeError)
  | stepBudget (limit : Nat)
deriving Repr, DecidableEq

/-- The wording of an error. -/
def Error.message : Error → String
  | .parse e => "Parse error: " ++ e.text
  | .runtime e => "Runtime error: " ++ e.text
  | .stepBudget limit => "Step budget of " ++ toString limit ++ " exhausted"

end Sandbox

/-- A sandbox: its set-up, what it is doing, what the present or last run did, and the machine of
that run. -/
structure Sandbox where
  options : Sandbox.Options
  state : Sandbox.State
  effects : Sandbox.Effects
  machine : Option Script.Machine
deriving Repr, Inhabited

namespace Sandbox

/-- An idle sandbox. -/
def new (options : Options) : Sandbox :=
  ⟨options, .idle, ⟨Surface.blank options.width options.height, #[]⟩, none⟩

/-- Begins a run.  What was drawn and put out before is dropped even if the script cannot be
read. -/
def start (b : Sandbox) (source : String) : Sandbox × Except ParseError Unit :=
  let fresh := { b with state := .idle, effects := b.effects.clear, machine := none }
  match Script.parseProgram source with
  | .error e => (fresh, .error e)
  | .ok p => ({ fresh with state := .running, machine := some (Machine.ofProgram p) }, .ok ())

/-- Makes one instruction of the present run, if there is one.  The run is over after its last
instruction and after a fault. -/
def step : Sandbox → Sandbox × Except RuntimeError State
  | ⟨options, .running, effects, some m⟩ =>
    match m.step capabilities effects with
    | (m, effects, .ok .running) => (⟨options, .running, effects, some m⟩, .ok .running)
    | (m, effects, .ok .done) => (⟨options, .idle, effects, some m⟩, .ok .idle)
    | (m, effects, .error e) => (⟨options, .idle, effects, some m⟩, .error e)
  | ⟨options, _, effects, m⟩ => (⟨options, .idle, effects, m⟩, .ok .idle)

/-- How far a run has come: the steps made, and how often the sandbox paused in between. -/
structure Progress where
  steps : Nat
  pauses : Nat
deriving Repr, DecidableEq

/-- The bound on the steps of a run.  Where none is set up, `patience` stands in for it. -/
def Options.limit (o : Options) (patience : Nat) : Nat := o.maxSteps.getD patience

/-- Steps until the sandbox is idle, at most `budget` times out of `limit`.  A sandbox that is still
running then becomes idle. -/
def drive (limit : Nat) : Nat → Progress → Sandbox → Sandbox × Progress × Except Error Unit
  | 0, p, b =>
    match b.state with
    | .idle => (b, p, .ok ())
    | .running => ({ b with state := .idle }, p, .error (.stepBudget limit))
  | budget + 1, p, b =>
    match b.state with
    | .idle => (b, p, .ok ())
    | .running =>
      match b.step with
      | (b, .error e) => (b, p, .error (.runtime e))
      | (b, .ok .idle) => drive limit budget ⟨p.steps + 1, p.pauses⟩ b
      | (b, .ok .running) => drive limit budget ⟨p.steps + 1, p.pauses + 1⟩ b

/-- Steps until the sandbox is idle, within its budget or else within `patience`. -/
def finish (b : Sandbox) (patience : Nat) : Sandbox × Progress × Except Error Unit :=
  let limit := b.options.limit patience
  drive limit limit ⟨0, 0⟩ b

/-- Runs a script from its beginning to its end. -/
def execute (b : Sandbox) (patience : Nat) (source : String) :
    Sandbox × Progress × Except Error Unit :=
  match b.start source with
  | (b, .error e) => (b, ⟨0, 0⟩, .error (.parse e))
  | (b, .ok ()) => b.finish patience

end Sandbox
end VisualBlocks

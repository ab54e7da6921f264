import VisualBlocks.Script.Code
import VisualBlocks.Table

/-!
# Running code

A machine holds code, the place of the next instruction, a stack, the global variables and the
number of instructions it has begun.  `Machine.step` executes one instruction.

Functions that are not built in are the host's.  A host is a state and what a call does to it: the
host has no function of the name, or the function returns a value, or it fails with a message.

A fault leaves the machine behind the faulty instruction, which counts as begun.
-/

set_option autoImplicit false

namespace VisualBlocks
namespace Script

/-- What can go wrong in a run. -/
inductive RuntimeFault where
  | notDefined (name : String)
  | notAFunction (name : String)
  | stackUnderflow
  /-- A function of the host failed. -/
  | host (message : String)
deriving Repr, DecidableEq

/-- The wording of a fault. -/
def RuntimeFault.message : RuntimeFault → String
  | .notDefined name => name ++ " is not defined"
  | .notAFunction name => name ++ " is not a function"
  | .stackUnderflow => "stack underflow"
  | .host message => message

/-- A fault and the position of the instruction that met it. -/
structure RuntimeError where
  fault : RuntimeFault
  pos : Position
deriving Repr, DecidableEq

/-- The wording of an error with its place. -/
def RuntimeError.text (e : RuntimeError) : String := e.pos.locate e.fault.message

/-- What a host does when a script calls `name`. -/
structure Host (σ : Type) where
  call : σ → String → List Value → Option (Except String Value) × σ

/-- The state of a run. -/
structure Machine where
  code : Array Instr
  ip : Nat
  /-- The values under evaluation, the last one first. -/
  stack : List Value
  globals : Table Value
  steps : Nat
deriving Repr

namespace Machine

/-- A machine at the start of some code. -/
def load (code : Code) : Machine := ⟨code.toArray, 0, [], Table.empty, 0⟩

/-- A machine at the start of a program. -/
def ofProgram (p : Program) : Machine := load p.code

/-- Is there nothing left to execute? -/
def isDone (m : Machine) : Bool := m.code.size ≤ m.ip

/-- The value of a global variable. -/
def global? (m : Machine) (name : String) : Option Value := m.globals.get? name

/-- The machine with a value on top of the stack. -/
def push (m : Machine) (v : Value) : Machine := { m with stack := v :: m.stack }

end Machine

/-- Calls a function that is built in or the host's. -/
def callFunction {σ : Type} (host : Host σ) (s : σ) (name : String) (args : List Value) :
    Except RuntimeFault Value × σ :=
  match builtin? name args with
  | some v => (.ok v, s)
  | none =>
    match host.call s name args with
    | (some (.ok v), s) => (.ok v, s)
    | (some (.error message), s) => (.error (.host message), s)
    | (none, s) => (.error (.notAFunction name), s)

/-- Executes an instruction on a machine that has already moved past it. -/
def execute {σ : Type} (host : Host σ) (m : Machine) (s : σ) : Op →
    Machine × σ × Option RuntimeFault
  | .push v => (m.push v, s, none)
  | .load name =>
    match m.global? name with
    | some v => (m.push v, s, none)
    | none => (m, s, some (.notDefined name))
  | .store name =>
    match m.stack with
    | v :: rest => ({ m with stack := rest, globals := m.globals.set name v }, s, none)
    | [] => (m, s, some .stackUnderflow)
  | .declare name =>
    match m.global? name with
    | some _ => (m, s, none)
    | none => ({ m with globals := m.globals.set name .undefined }, s, none)
  | .pop =>
    match m.stack with
    | _ :: rest => ({ m with stack := rest }, s, none)
    | [] => (m, s, some .stackUnderflow)
  | .unary op =>
    match m.stack with
    | v :: rest => ({ m with stack := v.unary op :: rest }, s, none)
    | [] => (m, s, some .stackUnderflow)
  | .binary op =>
    match m.stack with
    | b :: a :: rest => ({ m with stack := Value.binary op a b :: rest }, s, none)
    | _ => (m, s, some .stackUnderflow)
  | .jump target => ({ m with ip := target }, s, none)
  | .jumpIfFalse target =>
    match m.stack with
    | v :: rest =>
      ({ m with stack := rest, ip := if v.truthy then m.ip else target }, s, none)
    | [] => (m, s, some .stackUnderflow)
  | .andJump target =>
    match m.stack with
    | v :: rest =>
      if v.truthy then ({ m with stack := rest }, s, none) else ({ m with ip := target }, s, none)
    | [] => (m, s, some .stackUnderflow)
  | .orJump target =>
    match m.stack with
    | v :: rest =>
      if v.truthy then ({ m with ip := target }, s, none) else ({ m with stack := rest }, s, none)
    | [] => (m, s, some .stackUnderflow)
  | .call name argc =>
    if m.stack.length < argc then (m, s, some .stackUnderflow)
    else
      let m' := { m with stack := m.stack.drop argc }
      match callFunction host s name (m.stack.take argc).reverse with
      | (.ok v, s) => (m'.push v, s, none)
      | (.error fault, s) => (m', s, some fault)

/-- Whether a run goes on. -/
inductive Status where
  | running
  | done
deriving Repr, DecidableEq

/-- Executes the next instruction, if there is one, and says whether another one follows. -/
def Machine.step {σ : Type} (host : Host σ) (m : Machine) (s : σ) :
    Machine × σ × Except RuntimeError Status :=
  match m.code[m.ip]? with
  | none => (m, s, .ok .done)
  | some i =>
    match execute host { m with ip := m.ip + 1, steps := m.steps + 1 } s i.op with
    | (m, s, none) => (m, s, .ok (if m.isDone then .done else .running))
    | (m, s, some fault) => (m, s, .error ⟨fault, i.pos⟩)

/-- How a run of bounded length ended. -/
inductive RunEnd where
  | done
  | limit
  | fault (e : RuntimeError)
deriving Repr, DecidableEq

/-- Steps a machine until it is done or faulty, at most `limit` times. -/
def Machine.run {σ : Type} (host : Host σ) : Nat → Machine → σ → Machine × σ × RunEnd
  | 0, m, s => (m, s, .limit)
  | limit + 1, m, s =>
    match m.step host s with
    | (m, s, .ok .done) => (m, s, .done)
    | (m, s, .ok .running) => Machine.run host limit m s
    | (m, s, .error e) => (m, s, .fault e)

end Script
end VisualBlocks

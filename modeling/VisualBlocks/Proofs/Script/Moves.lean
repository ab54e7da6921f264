import VisualBlocks.Proofs.Script.Evaluation
import Mathlib.Logic.Relation

/-!
# Moves of the machine

The code of a part stands somewhere inside the code of the whole, and while it runs the stack holds
values that do not concern it.  So what a part does is said about a piece of code that is installed
at a place (`Installed`), and about any stack below.

* `Moves` is one instruction that succeeds, `Leads` some of them, `Fails` one that fails and
  `Faults` some that end with one that fails.
* There is one lemma for each instruction, `moves_…` or `fails_…`; nothing after it looks into
  `execute`.
-/

set_option autoImplicit false

namespace VisualBlocks
namespace Script

variable {σ : Type}

/-! ## Pieces of code -/

/-- The piece stands in `C` from the given place on. -/
def Installed (C : Code) (place : Nat) (piece : Code) : Prop :=
  ∀ k, k < piece.length → C[place + k]? = piece[k]?

namespace Installed

variable {C c d : Code} {place : Nat}

theorem left (h : Installed C place (c ++ d)) : Installed C place c := by
  intro k hk
  rw [h k (by rw [List.length_append]; omega), List.getElem?_append_left hk]

theorem right (h : Installed C place (c ++ d)) : Installed C (place + c.length) d := by
  intro k hk
  rw [Nat.add_assoc, h (c.length + k) (by rw [List.length_append]; omega),
    List.getElem?_append_right (by omega), Nat.add_sub_cancel_left]

theorem head {i : Instr} (h : Installed C place (i :: c)) : C[place]? = some i := by
  simpa using h 0 (by simp)

theorem tail {i : Instr} (h : Installed C place (i :: c)) : Installed C (place + 1) c := by
  intro k hk
  have := h (k + 1) (by simpa using hk)
  rwa [List.getElem?_cons_succ, Nat.add_comm k 1, ← Nat.add_assoc] at this

theorem whole (C : Code) : Installed C 0 C := by
  intro k _
  rw [Nat.zero_add]

end Installed

/-! ## Moves of the machine -/

/-- A point of a run: all that counts of a machine and its host, apart from the code. -/
structure Point (σ : Type) where
  ip : Nat
  stack : List Value
  globals : Table Value
  host : σ

/-- The machine at a point of a run of `C`, after `n` instructions. -/
def Point.machine (x : Point σ) (C : Code) (n : Nat) : Machine :=
  ⟨C.toArray, x.ip, x.stack, x.globals, n⟩

/-- What an instruction that leads to a point says about the run. -/
def Point.status (x : Point σ) (C : Code) : Status :=
  if (x.machine C 0).isDone then .done else .running

/-- A place in the code, in a world. -/
abbrev World.point (w : World σ) (place : Nat) (stack : List Value) : Point σ :=
  ⟨place, stack, w.globals, w.host⟩

variable (host : Host σ) (C : Code)

/-- One instruction leads from `x` to `y`. -/
def Moves (x y : Point σ) : Prop :=
  ∀ n, (x.machine C n).step host x.host = (y.machine C (n + 1), y.host, .ok (y.status C))

/-- The instruction at `x` fails, and leaves the world `w` behind. -/
def Fails (x : Point σ) (w : World σ) (e : RuntimeError) : Prop :=
  ∀ n, ∃ ip stack, (x.machine C n).step host x.host =
    ((w.point ip stack).machine C (n + 1), w.host, .error e)

/-- Some instructions lead from `x` to `y`. -/
abbrev Leads : Point σ → Point σ → Prop := Relation.ReflTransGen (Moves host C)

/-- Some instructions lead from `x` to one that fails. -/
def Faults (x : Point σ) (w : World σ) (e : RuntimeError) : Prop :=
  ∃ y, Leads host C x y ∧ Fails host C y w e

variable {host C}

theorem Moves.of_execute {x y : Point σ} {i : Instr} (hi : C[x.ip]? = some i)
    (h : ∀ n, execute host ⟨C.toArray, x.ip + 1, x.stack, x.globals, n⟩ x.host i.op =
      (y.machine C n, y.host, none)) : Moves host C x y := by
  intro n
  have hcode : (x.machine C n).code[(x.machine C n).ip]? = some i := by
    simpa [Point.machine] using hi
  rw [Machine.step, hcode]
  dsimp only [Point.machine] at h ⊢
  rw [h (n + 1)]
  rfl

theorem Fails.of_execute {x : Point σ} {w : World σ} {i : Instr} {fault : RuntimeFault}
    (ip : Nat) (stack : List Value) (hi : C[x.ip]? = some i)
    (h : ∀ n, execute host ⟨C.toArray, x.ip + 1, x.stack, x.globals, n⟩ x.host i.op =
      (⟨C.toArray, ip, stack, w.globals, n⟩, w.host, some fault)) :
    Fails host C x w ⟨fault, i.pos⟩ := by
  intro n
  refine ⟨ip, stack, ?_⟩
  have hcode : (x.machine C n).code[(x.machine C n).ip]? = some i := by
    simpa [Point.machine] using hi
  rw [Machine.step, hcode]
  dsimp only [Point.machine] at h ⊢
  rw [h (n + 1)]

theorem Faults.of_leads {x y : Point σ} {w : World σ} {e : RuntimeError} (hxy : Leads host C x y)
    (h : Faults host C y w e) : Faults host C x w e := by
  obtain ⟨z, hyz, hz⟩ := h
  exact ⟨z, hxy.trans hyz, hz⟩

theorem Fails.faults {x : Point σ} {w : World σ} {e : RuntimeError} (h : Fails host C x w e) :
    Faults host C x w e :=
  ⟨x, .refl, h⟩

/-! One lemma for each instruction. -/

section Instructions

variable {place target : Nat} {pos : Position} {stack : List Value} {globals : Table Value} {s : σ}

theorem moves_push {v : Value} (h : C[place]? = some ⟨.push v, pos⟩) :
    Moves host C ⟨place, stack, globals, s⟩ ⟨place + 1, v :: stack, globals, s⟩ :=
  .of_execute h fun _ => rfl

theorem moves_load {name : String} {v : Value} (h : C[place]? = some ⟨.load name, pos⟩)
    (hv : globals.get? name = some v) :
    Moves host C ⟨place, stack, globals, s⟩ ⟨place + 1, v :: stack, globals, s⟩ := by
  refine .of_execute h fun n => ?_
  dsimp only [execute, Machine.global?]
  rw [hv]
  rfl

theorem fails_load {name : String} (h : C[place]? = some ⟨.load name, pos⟩)
    (hv : globals.get? name = none) :
    Fails host C ⟨place, stack, globals, s⟩ ⟨globals, s⟩ ⟨.notDefined name, pos⟩ := by
  refine Fails.of_execute (i := ⟨.load name, pos⟩) (place + 1) stack h fun n => ?_
  dsimp only [execute, Machine.global?]
  rw [hv]

theorem moves_store {name : String} {v : Value} (h : C[place]? = some ⟨.store name, pos⟩) :
    Moves host C ⟨place, v :: stack, globals, s⟩ ⟨place + 1, stack, globals.set name v, s⟩ :=
  .of_execute h fun _ => rfl

theorem moves_declare {name : String} (h : C[place]? = some ⟨.declare name, pos⟩) :
    Moves host C ⟨place, stack, globals, s⟩ ⟨place + 1, stack, declareIn globals name, s⟩ := by
  refine .of_execute h fun n => ?_
  dsimp only [execute, Machine.global?, declareIn]
  cases globals.get? name <;> rfl

theorem moves_pop {v : Value} (h : C[place]? = some ⟨.pop, pos⟩) :
    Moves host C ⟨place, v :: stack, globals, s⟩ ⟨place + 1, stack, globals, s⟩ :=
  .of_execute h fun _ => rfl

theorem moves_unary {op : UnaryOp} {v : Value} (h : C[place]? = some ⟨.unary op, pos⟩) :
    Moves host C ⟨place, v :: stack, globals, s⟩
      ⟨place + 1, Value.unary op v :: stack, globals, s⟩ :=
  .of_execute h fun _ => rfl

theorem moves_binary {op : BinaryOp} {a b : Value} (h : C[place]? = some ⟨.binary op, pos⟩) :
    Moves host C ⟨place, b :: a :: stack, globals, s⟩
      ⟨place + 1, Value.binary op a b :: stack, globals, s⟩ :=
  .of_execute h fun _ => rfl

theorem moves_jump (h : C[place]? = some ⟨.jump target, pos⟩) :
    Moves host C ⟨place, stack, globals, s⟩ ⟨target, stack, globals, s⟩ :=
  .of_execute h fun _ => rfl

theorem moves_jumpIfFalse {v : Value} (h : C[place]? = some ⟨.jumpIfFalse target, pos⟩) :
    Moves host C ⟨place, v :: stack, globals, s⟩
      ⟨if v.truthy then place + 1 else target, stack, globals, s⟩ :=
  .of_execute h fun _ => rfl

theorem moves_andJump {v : Value} (h : C[place]? = some ⟨.andJump target, pos⟩) :
    Moves host C ⟨place, v :: stack, globals, s⟩
      (if v.truthy then ⟨place + 1, stack, globals, s⟩ else ⟨target, v :: stack, globals, s⟩) := by
  refine .of_execute h fun n => ?_
  dsimp only [execute]
  cases v.truthy <;> rfl

theorem moves_orJump {v : Value} (h : C[place]? = some ⟨.orJump target, pos⟩) :
    Moves host C ⟨place, v :: stack, globals, s⟩
      (if v.truthy then ⟨target, v :: stack, globals, s⟩ else ⟨place + 1, stack, globals, s⟩) := by
  refine .of_execute h fun n => ?_
  dsimp only [execute]
  cases v.truthy <;> rfl

theorem execute_call (m : Machine) (name : String) (args : List Value) (s : σ) :
    execute host { m with stack := args.reverse ++ m.stack } s (.call name args.length) =
      match callFunction host s name args with
      | (.ok v, s) => (m.push v, s, none)
      | (.error fault, s) => (m, s, some fault) := by
  have hlen : ¬ (args.reverse ++ m.stack).length < args.length := by simp
  have htake : ((args.reverse ++ m.stack).take args.length).reverse = args := by
    rw [List.take_left' (by simp), List.reverse_reverse]
  have hdrop : (args.reverse ++ m.stack).drop args.length = m.stack :=
    List.drop_left' (by simp)
  rcases hcall : callFunction host s name args with ⟨fault | v, t⟩ <;>
    simp only [execute, if_neg hlen, htake, hdrop, hcall]

end Instructions

end Script
end VisualBlocks

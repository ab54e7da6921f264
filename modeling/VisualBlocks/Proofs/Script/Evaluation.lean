import VisualBlocks.Script.Machine

/-!
# What a program means

The meaning of a program, said without instructions: expressions have values, statements change the
variables, and what happens inside a statement is told by what happens inside its parts.

* `Expr.eval` is the value of an expression.  Operands and arguments are evaluated from left to
  right, `and` and `or` stop at the operand that decides, and of a conditional one branch is
  evaluated.  An expression changes no variable; the functions it calls may change the host.
* `Runs` says how a list of statements ends, from given variables and a given state of the host:
  with other variables and another state, and with a fault or without one.  A list that does not
  end is in no such relation.
* `Host.noting` makes the calls on a host visible.
-/

set_option autoImplicit false

namespace VisualBlocks
namespace Script

variable {σ : Type}

/-! ## Expressions -/

/-- A computation on the state of the host that may fail. -/
abbrev Evaluation (σ α : Type) : Type := σ → Except RuntimeError α × σ

namespace Evaluation

/-- Goes on with the result of a computation, unless it failed. -/
def andThen {α β : Type} (x : Evaluation σ α) (f : α → Evaluation σ β) : Evaluation σ β := fun s =>
  match x s with
  | (.ok a, s) => f a s
  | (.error e, s) => (.error e, s)

/-- Computations one after the other. -/
instance : Monad (Evaluation σ) where
  pure a s := (.ok a, s)
  bind := andThen

/-- A computation that fails. -/
def fail {α : Type} (e : RuntimeError) : Evaluation σ α := fun s => (.error e, s)

theorem bind_apply {α β : Type} (x : Evaluation σ α) (f : α → Evaluation σ β) (s : σ) :
    (x >>= f) s = match x s with
      | (.ok a, s) => f a s
      | (.error e, s) => (.error e, s) := rfl

end Evaluation

variable (host : Host σ)

/-- The value of a variable, which must have one. -/
def lookUp (globals : Table Value) (pos : Position) (name : String) : Evaluation σ Value :=
  match globals.get? name with
  | some v => pure v
  | none => Evaluation.fail ⟨.notDefined name, pos⟩

/-- The value of a call whose arguments have been evaluated. -/
def applyFunction (pos : Position) (callee : String) (args : List Value) : Evaluation σ Value :=
  fun s =>
    match callFunction host s callee args with
    | (.ok v, s) => (.ok v, s)
    | (.error fault, s) => (.error ⟨fault, pos⟩, s)

mutual

/-- The value of an expression. -/
def Expr.eval (globals : Table Value) : Expr → Evaluation σ Value
  | .number _ x => pure (.number x)
  | .string _ s => pure (.string s)
  | .bool _ b => pure (.bool b)
  | .null _ => pure .null
  | .var pos name => lookUp globals pos name
  | .unary _ op operand => do return Value.unary op (← operand.eval globals)
  | .binary _ op left right => do
    let a ← left.eval globals
    match op with
    | .and => if a.truthy then right.eval globals else pure a
    | .or => if a.truthy then pure a else right.eval globals
    | op => return Value.binary op a (← right.eval globals)
  | .conditional _ test yes no => do
    if (← test.eval globals).truthy then yes.eval globals else no.eval globals
  | .call pos callee args => do applyFunction host pos callee (← evalArgs globals args)

/-- The values of the arguments of a call. -/
def evalArgs (globals : Table Value) : List Expr → Evaluation σ (List Value)
  | [] => pure []
  | e :: es => do
    let v ← e.eval globals
    return v :: (← evalArgs globals es)

end

/-! ## Statements -/

/-- The variables and the state of the host. -/
@[ext]
structure World (σ : Type) where
  globals : Table Value
  host : σ

namespace World

/-- The world after a computation whose result changes the variables. -/
def after (w : World σ) {α : Type} (x : Evaluation σ α) (change : α → Table Value) :
    World σ × Option RuntimeError :=
  match x w.host with
  | (.ok a, s) => (⟨change a, s⟩, none)
  | (.error e, s) => (⟨w.globals, s⟩, some e)

end World

/-- The variables with one more that has no first value.  It keeps the value it may have. -/
def declareIn (globals : Table Value) (name : String) : Table Value :=
  match globals.get? name with
  | some _ => globals
  | none => globals.set name .undefined

/-- Makes variables, one after the other. -/
def declareAll : List (String × Option Expr) → World σ → World σ × Option RuntimeError
  | [], w => (w, none)
  | (name, none) :: rest, w => declareAll rest ⟨declareIn w.globals name, w.host⟩
  | (name, some e) :: rest, w =>
    match w.after (e.eval host w.globals) fun v => w.globals.set name v with
    | (w, none) => declareAll rest w
    | (w, some fault) => (w, some fault)

/-- The value that an assignment gives to the variable.  One that changes the old value reads it
before the right side is evaluated. -/
def assigned (globals : Table Value) (pos : Position) (name : String) (value : Expr) :
    AssignOp → Evaluation σ Value
  | .set => value.eval host globals
  | .add => do
    let old ← lookUp globals pos name
    return Value.binary .add old (← value.eval host globals)
  | .sub => do
    let old ← lookUp globals pos name
    return Value.binary .sub old (← value.eval host globals)

/-- What a statement without parts does; nothing if the statement has parts. -/
def Statement.effect? (w : World σ) : Statement → Option (World σ × Option RuntimeError)
  | .declare _ names => some (declareAll host names w)
  | .assign pos name op value =>
    some (w.after (assigned host w.globals pos name value op) fun v => w.globals.set name v)
  | .expr _ value => some (w.after (value.eval host w.globals) fun _ => w.globals)
  | _ => none

/-- The statements that are to be done out of some branches: those under the first condition that
holds, or else those for all other cases. -/
def chosen (globals : Table Value) (otherwise : List Statement) :
    List (Expr × List Statement) → Evaluation σ (List Statement)
  | [] => pure otherwise
  | (condition, body) :: rest => do
    if (← condition.eval host globals).truthy then pure body else chosen globals otherwise rest

/-- Does a loop go on?  One without a condition does. -/
def goesOn (globals : Table Value) : Option Expr → Evaluation σ Bool
  | none => pure true
  | some condition => do return (← condition.eval host globals).truthy

/-- A loop that has been initialised: its condition, and what one round of it does. -/
def Statement.loop? : Statement → Option (Option Expr × List Statement)
  | .whileLoop _ condition body => some (some condition, body)
  | .forLoop _ none condition update body => some (condition, body ++ update.toList)
  | _ => none

/-- How statements end that are done one after the other.  A fault ends them all. -/
inductive Runs : List Statement → World σ → World σ × Option RuntimeError → Prop
  | nil (w : World σ) : Runs [] w (w, none)
  /-- A statement without parts, and what follows it. -/
  | effect {s : Statement} {rest : List Statement} {w w' : World σ}
      {r : World σ × Option RuntimeError} (he : s.effect? host w = some (w', none))
      (hrest : Runs rest w' r) : Runs (s :: rest) w r
  | effectFault {s : Statement} {rest : List Statement} {w w' : World σ} {e : RuntimeError}
      (he : s.effect? host w = some (w', some e)) : Runs (s :: rest) w (w', some e)
  /-- Branches of which one is done. -/
  | branch {pos : Position} {branches : List (Expr × List Statement)}
      {otherwise body rest : List Statement} {w w' : World σ} {s : σ}
      {r : World σ × Option RuntimeError}
      (hc : chosen host w.globals otherwise branches w.host = (.ok body, s))
      (hbody : Runs body ⟨w.globals, s⟩ (w', none)) (hrest : Runs rest w' r) :
      Runs (.ifElse pos branches otherwise :: rest) w r
  | branchFault {pos : Position} {branches : List (Expr × List Statement)}
      {otherwise body rest : List Statement} {w w' : World σ} {s : σ} {e : RuntimeError}
      (hc : chosen host w.globals otherwise branches w.host = (.ok body, s))
      (hbody : Runs body ⟨w.globals, s⟩ (w', some e)) :
      Runs (.ifElse pos branches otherwise :: rest) w (w', some e)
  | choiceFault {pos : Position} {branches : List (Expr × List Statement)}
      {otherwise rest : List Statement} {w : World σ} {s : σ} {e : RuntimeError}
      (hc : chosen host w.globals otherwise branches w.host = (.error e, s)) :
      Runs (.ifElse pos branches otherwise :: rest) w (⟨w.globals, s⟩, some e)
  /-- A loop is initialised once. -/
  | init {pos : Position} {first : Statement} {condition : Option Expr} {update : Option Statement}
      {body rest : List Statement} {w w' : World σ} {r : World σ × Option RuntimeError}
      (hinit : Runs [first] w (w', none))
      (hloop : Runs (.forLoop pos none condition update body :: rest) w' r) :
      Runs (.forLoop pos (some first) condition update body :: rest) w r
  | initFault {pos : Position} {first : Statement} {condition : Option Expr}
      {update : Option Statement} {body rest : List Statement} {w w' : World σ} {e : RuntimeError}
      (hinit : Runs [first] w (w', some e)) :
      Runs (.forLoop pos (some first) condition update body :: rest) w (w', some e)
  /-- A loop whose condition does not hold is over. -/
  | leaves {s : Statement} {condition : Option Expr} {round rest : List Statement} {w : World σ}
      {t : σ} {r : World σ × Option RuntimeError} (hs : s.loop? = some (condition, round))
      (hc : goesOn host w.globals condition w.host = (.ok false, t))
      (hrest : Runs rest ⟨w.globals, t⟩ r) : Runs (s :: rest) w r
  /-- A loop whose condition holds makes one round and is then done again. -/
  | again {s : Statement} {condition : Option Expr} {round rest : List Statement}
      {w w' : World σ} {t : σ} {r : World σ × Option RuntimeError}
      (hs : s.loop? = some (condition, round))
      (hc : goesOn host w.globals condition w.host = (.ok true, t))
      (hround : Runs round ⟨w.globals, t⟩ (w', none)) (hagain : Runs (s :: rest) w' r) :
      Runs (s :: rest) w r
  | roundFault {s : Statement} {condition : Option Expr} {round rest : List Statement}
      {w w' : World σ} {t : σ} {e : RuntimeError} (hs : s.loop? = some (condition, round))
      (hc : goesOn host w.globals condition w.host = (.ok true, t))
      (hround : Runs round ⟨w.globals, t⟩ (w', some e)) : Runs (s :: rest) w (w', some e)
  | conditionFault {s : Statement} {condition : Option Expr} {round rest : List Statement}
      {w : World σ} {t : σ} {e : RuntimeError} (hs : s.loop? = some (condition, round))
      (hc : goesOn host w.globals condition w.host = (.error e, t)) :
      Runs (s :: rest) w (⟨w.globals, t⟩, some e)

/-- How a program ends that begins without variables. -/
def Program.Ends (p : Program) (s : σ) (r : World σ × Option RuntimeError) : Prop :=
  Runs host p.body ⟨.empty, s⟩ r

/-! ## The calls on a host -/

/-- A host that does what `host` does and writes down every call, the first one first. -/
def Host.noting : Host (σ × List (String × List Value)) where
  call s name args :=
    let (answer, t) := host.call s.1 name args
    (answer, t, s.2 ++ [(name, args)])

end Script
end VisualBlocks

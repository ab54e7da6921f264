import VisualBlocks.Script.Value

/-!
# Code

A program is flattened into a list of instructions for a machine with a stack, so that it can be
run one instruction at a time.  Jumps name the place they lead to.

The instructions of a piece depend on where the piece stands only through its jumps.  So each of the
functions here takes the place `at'` of the first instruction and returns the instructions; how many
there are does not depend on the place, and where a part ends is known from its length.

* An expression leaves one value more on the stack than it found, a statement as many as it found.
* `and`, `or` and the conditional jump over what is not evaluated.
-/

set_option autoImplicit false

namespace VisualBlocks
namespace Script

/-- An instruction. -/
inductive Op where
  | push (value : Value)
  | load (name : String)
  | store (name : String)
  | declare (name : String)
  | pop
  | unary (op : UnaryOp)
  | binary (op : BinaryOp)
  | jump (target : Nat)
  | jumpIfFalse (target : Nat)
  /-- Jumps and keeps the value on the stack when it is false; drops it otherwise. -/
  | andJump (target : Nat)
  /-- Jumps and keeps the value on the stack when it is true; drops it otherwise. -/
  | orJump (target : Nat)
  | call (callee : String) (argc : Nat)
deriving Repr, DecidableEq, Inhabited

/-- An instruction and the position at which its faults are reported. -/
structure Instr where
  op : Op
  pos : Position
deriving Repr, DecidableEq, Inhabited

/-- Instructions, in the order in which they stand. -/
abbrev Code := List Instr

mutual

/-- The code of an expression that stands at `at'`. -/
def Expr.code (at' : Nat) : Expr → Code
  | .number pos x => [⟨.push (.number x), pos⟩]
  | .string pos s => [⟨.push (.string s), pos⟩]
  | .bool pos b => [⟨.push (.bool b), pos⟩]
  | .null pos => [⟨.push .null, pos⟩]
  | .var pos name => [⟨.load name, pos⟩]
  | .unary pos op operand => Expr.code at' operand ++ [⟨.unary op, pos⟩]
  | .binary pos op left right =>
    let l := Expr.code at' left
    match op with
    | .and =>
      let r := Expr.code (at' + l.length + 1) right
      l ++ ⟨.andJump (at' + l.length + 1 + r.length), pos⟩ :: r
    | .or =>
      let r := Expr.code (at' + l.length + 1) right
      l ++ ⟨.orJump (at' + l.length + 1 + r.length), pos⟩ :: r
    | op => l ++ Expr.code (at' + l.length) right ++ [⟨.binary op, pos⟩]
  | .conditional pos test yes no =>
    let t := Expr.code at' test
    let y := Expr.code (at' + t.length + 1) yes
    let skip := at' + t.length + 1 + y.length + 1
    let n := Expr.code skip no
    t ++ ⟨.jumpIfFalse skip, pos⟩ :: y ++ ⟨.jump (skip + n.length), pos⟩ :: n
  | .call pos callee args => argsCode at' args ++ [⟨.call callee args.length, pos⟩]

/-- The code of the arguments of a call, in their order. -/
def argsCode (at' : Nat) : List Expr → Code
  | [] => []
  | e :: es =>
    let c := Expr.code at' e
    c ++ argsCode (at' + c.length) es

end

/-- The code of a declaration.  A variable without a first value keeps the one it may have. -/
def declareCode (pos : Position) (at' : Nat) : List (String × Option Expr) → Code
  | [] => []
  | (name, some e) :: rest =>
    let c := Expr.code at' e ++ [⟨.store name, pos⟩]
    c ++ declareCode pos (at' + c.length) rest
  | (name, none) :: rest => ⟨.declare name, pos⟩ :: declareCode pos (at' + 1) rest

/-- The code of an assignment.  One that changes the old value loads it first. -/
def assignCode (pos : Position) (at' : Nat) (name : String) (value : Expr) : AssignOp → Code
  | .set => Expr.code at' value ++ [⟨.store name, pos⟩]
  | .add =>
    ⟨.load name, pos⟩ :: Expr.code (at' + 1) value ++ [⟨.binary .add, pos⟩, ⟨.store name, pos⟩]
  | .sub =>
    ⟨.load name, pos⟩ :: Expr.code (at' + 1) value ++ [⟨.binary .sub, pos⟩, ⟨.store name, pos⟩]

mutual

/-- The code of a statement that stands at `at'`. -/
def Statement.code (at' : Nat) : Statement → Code
  | .declare pos names => declareCode pos at' names
  | .assign pos name op value => assignCode pos at' name value op
  | .expr pos value => Expr.code at' value ++ [⟨.pop, pos⟩]
  | .ifElse pos branches otherwise =>
    branchesCode pos (fun place => bodyCode place otherwise) at' branches
  | .whileLoop pos condition body =>
    let c := Expr.code at' condition
    let b := bodyCode (at' + c.length + 1) body
    c ++ ⟨.jumpIfFalse (at' + c.length + 1 + b.length + 1), pos⟩ :: b ++ [⟨.jump at', pos⟩]
  | .forLoop pos init condition update body =>
    let i := optionCode at' init
    let start := at' + i.length
    match condition with
    | none =>
      let b := bodyCode start body
      let u := optionCode (start + b.length) update
      i ++ b ++ u ++ [⟨.jump start, pos⟩]
    | some condition =>
      let c := Expr.code start condition
      let b := bodyCode (start + c.length + 1) body
      let u := optionCode (start + c.length + 1 + b.length) update
      let exit := start + c.length + 1 + b.length + u.length + 1
      i ++ c ++ ⟨.jumpIfFalse exit, pos⟩ :: b ++ u ++ [⟨.jump start, pos⟩]

/-- The code of statements one after the other. -/
def bodyCode (at' : Nat) : List Statement → Code
  | [] => []
  | s :: ss =>
    let c := Statement.code at' s
    c ++ bodyCode (at' + c.length) ss

/-- The code of a statement that may be absent. -/
def optionCode (at' : Nat) : Option Statement → Code
  | none => []
  | some s => Statement.code at' s

/-- The code of branches and of what is done when no condition holds, which is given by its place.
Every branch ends with a jump behind the whole, the last one too. -/
def branchesCode (pos : Position) (otherwise : Nat → Code) (at' : Nat) :
    List (Expr × List Statement) → Code
  | [] => otherwise at'
  | (condition, body) :: rest =>
    let c := Expr.code at' condition
    let b := bodyCode (at' + c.length + 1) body
    let next := at' + c.length + 1 + b.length + 1
    let r := branchesCode pos otherwise next rest
    c ++ ⟨.jumpIfFalse next, pos⟩ :: b ++ ⟨.jump (next + r.length), pos⟩ :: r

end

/-- The code of a program. -/
def Program.code (p : Program) : Code := bodyCode 0 p.body

end Script
end VisualBlocks

import VisualBlocks.Script.Token

/-!
# Programs

The abstract form of a script: statements over expressions, each with the position at which a fault
in it is reported.
-/

set_option autoImplicit false

namespace VisualBlocks
namespace Script

/-- Operators before an operand. -/
inductive UnaryOp where
  | not
  | negate
  | plus
deriving Repr, DecidableEq, Inhabited

/-- Operators between two operands. -/
inductive BinaryOp where
  | add
  | sub
  | mul
  | div
  | mod
  | eq
  | ne
  | lt
  | le
  | gt
  | ge
  | and
  | or
deriving Repr, DecidableEq, Inhabited

/-- How an operator between operands is spelt. -/
def BinaryOp.symbol : BinaryOp → String
  | .add => "+"
  | .sub => "-"
  | .mul => "*"
  | .div => "/"
  | .mod => "%"
  | .eq => "=="
  | .ne => "!="
  | .lt => "<"
  | .le => "<="
  | .gt => ">"
  | .ge => ">="
  | .and => "&&"
  | .or => "||"

/-- How tightly an operator between operands binds: a larger number binds tighter. -/
def BinaryOp.precedence : BinaryOp → Nat
  | .or => 1
  | .and => 2
  | .eq | .ne => 3
  | .lt | .le | .gt | .ge => 4
  | .add | .sub => 5
  | .mul | .div | .mod => 6

/-- All operators between operands. -/
def BinaryOp.all : List BinaryOp :=
  [.add, .sub, .mul, .div, .mod, .eq, .ne, .lt, .le, .gt, .ge, .and, .or]

/-- The operator that is spelt so. -/
def BinaryOp.ofSymbol? (s : String) : Option BinaryOp := BinaryOp.all.find? (·.symbol == s)

/-- An expression. -/
inductive Expr where
  | number (pos : Position) (value : Float)
  | string (pos : Position) (value : String)
  | bool (pos : Position) (value : Bool)
  | null (pos : Position)
  | var (pos : Position) (name : String)
  | unary (pos : Position) (op : UnaryOp) (operand : Expr)
  | binary (pos : Position) (op : BinaryOp) (left right : Expr)
  | conditional (pos : Position) (test yes no : Expr)
  | call (pos : Position) (callee : String) (args : List Expr)
deriving Repr, Inhabited

/-- Where an expression is reported: at its operator, or where it begins. -/
def Expr.pos : Expr → Position
  | .number pos _ | .string pos _ | .bool pos _ | .null pos | .var pos _ | .unary pos _ _
  | .binary pos _ _ _ | .conditional pos _ _ _ | .call pos _ _ => pos

/-- What an assignment does with the old value. -/
inductive AssignOp where
  | set
  | add
  | sub
deriving Repr, DecidableEq, Inhabited

/-- A statement. -/
inductive Statement where
  /-- Makes variables, each with a first value or without. -/
  | declare (pos : Position) (names : List (String × Option Expr))
  | assign (pos : Position) (name : String) (op : AssignOp) (value : Expr)
  | expr (pos : Position) (value : Expr)
  | ifElse (pos : Position) (branches : List (Expr × List Statement)) (otherwise : List Statement)
  | whileLoop (pos : Position) (condition : Expr) (body : List Statement)
  | forLoop (pos : Position) (init : Option Statement) (condition : Option Expr)
      (update : Option Statement) (body : List Statement)
deriving Repr, Inhabited

/-- A whole script. -/
structure Program where
  body : List Statement
deriving Repr, Inhabited

end Script
end VisualBlocks

import VisualBlocks.Number.Layout
import VisualBlocks.Number.Reading
import VisualBlocks.Script.Program
import VisualBlocks.Text.Blank

/-!
# Values

What scripts compute with, and what the operators and the functions every script may call do with
it.  Every operation is total: a text that is no number counts as the number that is not one.
-/

set_option autoImplicit false

namespace VisualBlocks
namespace Script

/-- A value. -/
inductive Value where
  | undefined
  | null
  | bool (b : Bool)
  | number (x : Float)
  | string (s : String)
deriving Repr, DecidableEq, Inhabited

/-- The number that is not a number. -/
def notANumber : Float := 0 / 0

namespace Value

/-- Does the value count as true? -/
def truthy : Value → Bool
  | .undefined | .null => false
  | .bool b => b
  | .number x => x != 0 && !x.isNaN
  | .string s => !s.isEmpty

/-- The value as a number.  A text may have white space around its number, and a blank text is
zero. -/
def toNumber : Value → Float
  | .undefined => notANumber
  | .null => 0
  | .bool b => if b then 1 else 0
  | .number x => x
  | .string s =>
    let t := Text.trim s
    if t.isEmpty then 0 else (Number.float? t).getD notANumber

/-- The text a value shows as. -/
def display : Value → String
  | .undefined => "undefined"
  | .null => "null"
  | .bool b => if b then "true" else "false"
  | .number x =>
    if x.isNaN then "NaN"
    else if x.isInf then if x > 0 then "Infinity" else "-Infinity"
    else Number.literal x
  | .string s => s

/-- Are the values equal as far as scripts can tell?  The two absent values equal each other and
nothing else; values of different kinds are compared as numbers. -/
def looseEq : Value → Value → Bool
  | .undefined, .undefined | .undefined, .null | .null, .undefined | .null, .null => true
  | .undefined, _ | .null, _ | _, .undefined | _, .null => false
  | .string a, .string b => a == b
  | .bool a, .bool b => a == b
  | a, b => a.toNumber == b.toNumber

/-- The value of an operator before an operand. -/
def unary : UnaryOp → Value → Value
  | .not, v => .bool !v.truthy
  | .negate, v => .number (-v.toNumber)
  | .plus, v => .number v.toNumber

/-- Adds numbers, or joins the texts of two values of which one is a text. -/
def add : Value → Value → Value
  | .string a, b => .string (a ++ b.display)
  | a, .string b => .string (a.display ++ b)
  | a, b => .number (a.toNumber + b.toNumber)

/-- Compares two texts by their characters, and all else as numbers. -/
def relate (text : String → String → Bool) (number : Float → Float → Bool) : Value → Value → Value
  | .string a, .string b => .bool (text a b)
  | a, b => .bool (number a.toNumber b.toNumber)

/-- The value of an operator between two operands. -/
def binary (op : BinaryOp) (a b : Value) : Value :=
  match op with
  | .add => add a b
  | .sub => .number (a.toNumber - b.toNumber)
  | .mul => .number (a.toNumber * b.toNumber)
  | .div => .number (a.toNumber / b.toNumber)
  | .mod => .number (Number.remainder a.toNumber b.toNumber)
  | .eq => .bool (looseEq a b)
  | .ne => .bool !looseEq a b
  | .lt => relate (fun s t => s < t) (fun x y => x < y) a b
  | .le => relate (fun s t => !(t < s)) (fun x y => x ≤ y) a b
  | .gt => relate (fun s t => t < s) (fun x y => x > y) a b
  | .ge => relate (fun s t => !(s < t)) (fun x y => x ≥ y) a b
  | .and => if a.truthy then b else a
  | .or => if a.truthy then a else b

end Value

/-! ## Functions -/

/-- The smaller of two numbers; what is not a number loses. -/
def smaller (x y : Float) : Float := if x.isNaN then y else if y < x then y else x

/-- The larger of two numbers; what is not a number loses. -/
def larger (x y : Float) : Float := if x.isNaN then y else if y > x then y else x

/-- The value of a function that every script may call, or nothing if the name is not of one.  A
missing argument is not a number. -/
def builtin? (name : String) (args : List Value) : Option Value :=
  let arg (i : Nat) : Float := (args[i]?.map Value.toNumber).getD notANumber
  if name = "Math.pow" then some (.number (Float.pow (arg 0) (arg 1)))
  else if name = "Math.sqrt" then some (.number (arg 0).sqrt)
  else if name = "Math.abs" then some (.number (arg 0).abs)
  else if name = "Math.floor" then some (.number (arg 0).floor)
  else if name = "Math.ceil" then some (.number (arg 0).ceil)
  else if name = "Math.round" then some (.number (arg 0 + 0.5).floor)
  else if name = "Math.min" then some (.number ((args.map Value.toNumber).foldl smaller (1 / 0)))
  else if name = "Math.max" then some (.number ((args.map Value.toNumber).foldl larger (-1 / 0)))
  else if name = "Number" then some (.number (arg 0))
  else if name = "String" then some (.string ((args.head?.map Value.display).getD ""))
  else none

end Script
end VisualBlocks

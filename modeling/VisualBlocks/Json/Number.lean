import VisualBlocks.Json.Value
import VisualBlocks.Number.Layout

/-!
# JSON numbers

A number without fraction and exponent that fits 64 bits, signed or unsigned, is an integer.  Every
other number is read as a significand scaled by a power of ten: the significand takes digits as
long as it fits 64 bits, the digits after that only count as places, and the scaling is one float
multiplication or division.  A number beyond the range of floats is refused.
-/

set_option autoImplicit false

namespace VisualBlocks
namespace Json

/-- A significand under construction: its value, the power of ten it stands at, and whether it is
full, so that further digits no longer enter it. -/
structure Significand where
  value : Nat
  exponent : Int

/-- Would the digit push the significand over 64 bits? -/
def Significand.isFullFor (s : Significand) (digit : Char) : Bool :=
  Nat.pow 2 64 ≤ 10 * s.value + (digit.toNat - '0'.toNat)

/-- Takes the digits before the point.  From the first digit that does not fit on, digits count as
places. -/
def Significand.takeWhole (s : Significand) : List Char → Significand
  | [] => s
  | d :: ds =>
    if s.isFullFor d then { s with exponent := (ds.length + 1 : Nat) }
    else Significand.takeWhole { s with value := 10 * s.value + (d.toNat - '0'.toNat) } ds

/-- Takes the digits after the point, up to the first that does not fit. -/
def Significand.takePlaces (s : Significand) : List Char → Significand
  | [] => s
  | d :: ds =>
    if s.isFullFor d then s
    else Significand.takePlaces
      ⟨10 * s.value + (d.toNat - '0'.toNat), s.exponent - 1⟩ ds

/-- The power of ten as a float. -/
def powerOfTen (e : Nat) : Float := Float.ofScientific 1 false e

/-- Divides by the powers of ten that remain, the largest representable one at a time.  Three
divisions bring every significand to zero. -/
def scaleDown : Nat → Float → Nat → Float
  | 0, x, _ => x
  | fuel + 1, x, e =>
    if e ≤ 308 then x / powerOfTen e
    else scaleDown fuel (x / powerOfTen 308) (e - 308)

/-- The float a significand stands for, unless it is out of range. -/
def Significand.toFloat? (s : Significand) : Option Float :=
  let x := Float.ofNat s.value
  if s.exponent < 0 then some (scaleDown 4 x s.exponent.natAbs)
  else if 308 < s.exponent then if s.value = 0 then some x else none
  else
    let y := x * powerOfTen s.exponent.natAbs
    if y.isInf then none else some y

/-- The value of a number from its parts.  `places` and `exponent` are absent together with the
point and the exponent mark. -/
def ofParts (negative : Bool) (whole : List Char) (places : Option (List Char))
    (exponent : Option Int) : Option Json :=
  let s := (⟨0, 0⟩ : Significand).takeWhole whole
  let fits := s.exponent = 0
  if places.isNone && exponent.isNone && fits &&
      !(negative && (s.value = 0 || Nat.pow 2 63 < s.value)) then
    some (.integer (if negative then -(s.value : Int) else s.value))
  else
    let s := s.takePlaces (places.getD [])
    let s := { s with exponent := s.exponent + exponent.getD 0 }
    s.toFloat?.map fun x => .float (if negative then -x else x)

/-- The text of a number, as it is written back. -/
def numberText? : Json → Option String
  | .integer n => some (toString n)
  | .float x => some (Number.marked x)
  | _ => none

end Json
end VisualBlocks

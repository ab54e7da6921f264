/-!
# Finite floats as exact numbers

A finite double is a natural number times a power of two.  `Binary.ofFloat` takes the pair off the
bits, so that what floating arithmetic has no operation for is computed on integers:

* `remainder` is the exact remainder, with the sign of the dividend;
* `truncate` cuts towards zero and clamps to 64 signed bits.
-/

set_option autoImplicit false

namespace VisualBlocks
namespace Number

/-- The non-negative number `significand * 2 ^ exponent`. -/
structure Binary where
  significand : Nat
  exponent : Int
  /-- The gap to the next double below is half the gap to the next one above. -/
  narrowBelow : Bool
deriving Repr, DecidableEq

/-- The magnitude of a finite double, read off its bits. -/
def Binary.ofFloat (x : Float) : Binary :=
  let bits := x.toBits.toNat
  let e : Nat := bits / Nat.pow 2 52 % Nat.pow 2 11
  let f : Nat := bits % Nat.pow 2 52
  if e = 0 then ⟨f, -1074, false⟩
  else ⟨Nat.pow 2 52 + f, (e : Int) - 1075, f == 0 && e != 1⟩

/-- Is the sign bit set?  It tells the two zeros apart. -/
def isNegative (x : Float) : Bool := x.toBits.toNat / Nat.pow 2 63 % 2 == 1

/-- The remainder of two magnitudes, as a significand and an exponent of two. -/
def Binary.mod (a b : Binary) : Nat × Int :=
  let e := min a.exponent b.exponent
  let scaled (x : Binary) : Nat := x.significand * Nat.pow 2 (x.exponent - e).toNat
  (scaled a % scaled b, e)

/-- The exact remainder of a division that truncates; it has the sign of `x`. -/
def remainder (x y : Float) : Float :=
  if x.isNaN || y.isNaN || x.isInf || y == 0 then 0 / 0
  else if y.isInf then x
  else
    let (r, e) := (Binary.ofFloat x).mod (Binary.ofFloat y)
    let magnitude := Float.scaleB (Float.ofNat r) e
    if isNegative x then -magnitude else magnitude

/-- The integral part as a 64-bit signed integer.  What lies outside goes to the nearer end, and
what is not a number to zero. -/
def truncate (x : Float) : Int :=
  if x.isNaN then 0
  else if x.isInf then if x < 0 then -Int.pow 2 63 else Int.pow 2 63 - 1
  else
    let b := Binary.ofFloat x
    let n : Nat := b.significand * Nat.pow 2 b.exponent.toNat / Nat.pow 2 (-b.exponent).toNat
    if isNegative x then max (-(n : Int)) (-Int.pow 2 63) else min (n : Int) (Int.pow 2 63 - 1)

end Number
end VisualBlocks

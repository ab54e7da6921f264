import VisualBlocks.Number.Shortest

/-!
# How numbers are written

Two layouts of the shortest digits:

* `plain` never uses an exponent and writes whole numbers without a point;
* `marked` always shows that the number is a float, by a point or an exponent.

`literal` is the plain layout as it stands in a script, where zero has no sign.
-/

set_option autoImplicit false

namespace VisualBlocks
namespace Number

/-- The digits of a natural number in base ten. -/
def digitChars (n : Nat) : List Char := Nat.toDigits 10 n

/-- The decimal written without an exponent. -/
def Decimal.positional (d : Decimal) : List Char :=
  let ds := digitChars d.digits
  if 0 ≤ d.exponent then ds ++ List.replicate d.exponent.toNat '0'
  else
    let places := (-d.exponent).toNat
    if places < ds.length then
      ds.take (ds.length - places) ++ '.' :: ds.drop (ds.length - places)
    else '0' :: '.' :: (List.replicate (places - ds.length) '0' ++ ds)

/-- The text of a finite magnitude or of infinity, with the sign of `x` in front. -/
def withSign (x : Float) (magnitude : List Char) : String :=
  String.ofList (if isNegative x then '-' :: magnitude else magnitude)

/-- The shortest digits that read back, without an exponent and without a point for a whole
number. -/
def plain (x : Float) : String :=
  if x.isNaN then "NaN"
  else if x.isInf then withSign x "inf".toList
  else withSign x ((Binary.ofFloat x).shortest .up).positional

/-- A number as scripts and drawings spell it: the plain text, with a single zero. -/
def literal (x : Float) : String := if x == 0 then "0" else plain x

/-- The exponent part of a marked number: it always has a sign. -/
def exponentMark (e : Int) : List Char :=
  'e' :: (if e < 0 then '-' else '+') :: digitChars e.natAbs

/-- The shortest digits that read back, written so that they cannot be taken for an integer: with
a point in them, or a closing `.0`, and below `1e-5` and from `1e16` on with an exponent. -/
def marked (x : Float) : String :=
  let d := (Binary.ofFloat x).shortest .even
  let ds := digitChars d.digits
  let lead : Int := d.exponent + ds.length - 1
  withSign x <|
    if d.digits = 0 then "0.0".toList
    else if -5 ≤ lead ∧ lead < 16 then
      if 0 ≤ d.exponent then d.positional ++ ['.', '0'] else d.positional
    else
      match ds with
      | c :: c' :: cs => c :: '.' :: c' :: cs ++ exponentMark lead
      | _ => ds ++ exponentMark lead

end Number
end VisualBlocks

import VisualBlocks.Number.Binary

/-!
# The fewest digits that read back

A finite double stands for all reals that round to it: an interval from halfway to the neighbour
below to halfway to the neighbour above, with its ends when the significand is even.  `shortest`
picks the decimal written with the fewest digits inside that interval, and of two such decimals the
nearer one.

On the grid of decimals with a given number of digits only the two neighbours of the value can be
in the interval and nearest, so the search tests these two, on finer and finer grids.  All
comparisons are exact, between naturals.
-/

set_option autoImplicit false

namespace VisualBlocks
namespace Number

/-- The number `digits * 10 ^ exponent`. -/
structure Decimal where
  digits : Nat
  exponent : Int
deriving Repr, DecidableEq

/-- What to do when two decimals are equally near. -/
inductive Tie where
  /-- Take the larger one. -/
  | up
  /-- Take the one whose last digit is even. -/
  | even
deriving Repr, DecidableEq

/-- A magnitude counted in units of `10 ^ exponent`: the exact quotient is `num / den`. -/
structure Scaled where
  num : Nat
  den : Nat
  /-- The significand of the magnitude, of which `num` is a multiple by `unit`. -/
  unit : Nat

/-- The magnitude counted in units of `10 ^ exponent`. -/
def Binary.inUnits (x : Binary) (exponent : Int) : Scaled :=
  let unit := Nat.pow 2 x.exponent.toNat * Nat.pow 10 (-exponent).toNat
  ⟨x.significand * unit, Nat.pow 2 (-x.exponent).toNat * Nat.pow 10 exponent.toNat, unit⟩

/-- Does `c * 10 ^ exponent` read back as `x`?  The ends of the interval are at a quarter or a half
of the last binary place below and at a half above. -/
def Binary.covers (x : Binary) (s : Scaled) (c : Nat) : Bool :=
  let low := (4 * x.significand - if x.narrowBelow then 1 else 2) * s.unit
  let high := (4 * x.significand + 2) * s.unit
  let here := 4 * c * s.den
  if x.significand % 2 == 0 then low ≤ here && here ≤ high else low < here && here < high

/-- The nearest decimal on the grid of `10 ^ exponent` that reads back, if there is one. -/
def Binary.onGrid? (tie : Tie) (x : Binary) (exponent : Int) : Option Decimal :=
  let s := x.inUnits exponent
  let below := s.num / s.den
  let above := below + 1
  match x.covers s below, x.covers s above with
  | true, false => some ⟨below, exponent⟩
  | false, true => some ⟨above, exponent⟩
  | false, false => none
  | true, true =>
    match compare (2 * s.num) ((below + above) * s.den) with
    | .lt => some ⟨below, exponent⟩
    | .gt => some ⟨above, exponent⟩
    | .eq => some ⟨if tie = .even ∧ below % 2 = 0 then below else above, exponent⟩

/-- Is the magnitude below `10 ^ k`? -/
def Binary.isBelow (x : Binary) (k : Int) : Bool :=
  let s := x.inUnits k
  s.num < s.den

/-- The least `k` with the magnitude below `10 ^ k`, for a magnitude above zero.  The estimate from
the binary logarithm is at most one too large, and starting one lower four steps reach the
answer. -/
def Binary.scale (x : Binary) : Int :=
  let start := (((x.significand.log2 : Int) + x.exponent) * 1233).fdiv 4096 - 1
  match (List.range 4).find? (fun (i : Nat) => x.isBelow (start + i)) with
  | some i => start + i
  | none => start + 4

/-- Moves the zeros at the end of the digits into the exponent. -/
def Decimal.stripZeros : Nat → Decimal → Decimal
  | 0, d => d
  | fuel + 1, d =>
    if d.digits % 10 = 0 then Decimal.stripZeros fuel ⟨d.digits / 10, d.exponent + 1⟩ else d

/-- The exact decimal value of a magnitude. -/
def Binary.exact (x : Binary) : Decimal :=
  ⟨x.significand * Nat.pow 2 x.exponent.toNat * Nat.pow 5 (-x.exponent).toNat, min x.exponent 0⟩

/-- The decimal with the fewest digits that reads back as the magnitude.  Seventeen digits always
suffice; the exact value closes the search all the same. -/
def Binary.shortest (tie : Tie) (x : Binary) : Decimal :=
  if x.significand = 0 then ⟨0, 0⟩
  else
    let k := x.scale
    let found := (List.range 17).findSome? fun (n : Nat) => x.onGrid? tie (k - 1 - n)
    (found.getD x.exact).stripZeros 400

end Number
end VisualBlocks

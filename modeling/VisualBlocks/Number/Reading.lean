/-!
# How numbers are read

`float?` reads a decimal literal, and nothing but one: an optional sign, digits with an optional
point among or around them, an optional exponent; or one of the words for infinity and for what is
not a number, in any case.  There are no blanks, no separators and no other bases.  The value is
the double nearest to the decimal.

`natural?` reads digits after an optional plus sign and refuses what reaches a given bound.
-/

set_option autoImplicit false

namespace VisualBlocks
namespace Number

/-- The value of a run of decimal digits. -/
def ofDigits (ds : List Char) : Nat := ds.foldl (fun n c => 10 * n + (c.toNat - '0'.toNat)) 0

/-- The double nearest to `n * 10 ^ e`.  A decimal whose leading digit stands above the range of
doubles is infinite and one far below it is zero, so that no huge power is formed. -/
def nearest (n : Nat) (e : Int) : Float :=
  let lead : Int := (Nat.toDigits 10 n).length + e
  if n = 0 || lead < -400 then 0
  else if lead > 400 then 1 / 0
  else Float.ofScientific n (e < 0) e.natAbs

/-- The sign in front of a number, and what follows it. -/
def takeSign : List Char → Bool × List Char
  | '-' :: cs => (true, cs)
  | '+' :: cs => (false, cs)
  | cs => (false, cs)

/-- Reads the exponent part, which is optional but closes the text. -/
def exponent? : List Char → Option Int
  | [] => some 0
  | c :: cs =>
    if c = 'e' || c = 'E' then
      let (negative, ds) := takeSign cs
      if ds.isEmpty || !ds.all Char.isDigit then none
      else some (if negative then -(ofDigits ds : Int) else ofDigits ds)
    else none

/-- Reads an unsigned decimal literal. -/
def decimal? (cs : List Char) : Option Float :=
  let whole := cs.takeWhile Char.isDigit
  let rest := cs.dropWhile Char.isDigit
  let (places, rest) : List Char × List Char := match rest with
    | '.' :: rest => (rest.takeWhile Char.isDigit, rest.dropWhile Char.isDigit)
    | rest => ([], rest)
  if whole.isEmpty && places.isEmpty then none
  else (exponent? rest).map fun e => nearest (ofDigits (whole ++ places)) (e - places.length)

/-- Reads a word that stands for infinity or for what is not a number. -/
def word? (cs : List Char) : Option Float :=
  let w := String.ofList (cs.map Char.toLower)
  if w = "inf" || w = "infinity" then some (1 / 0)
  else if w = "nan" then some (0 / 0)
  else none

/-- Reads a number literal. -/
def float? (s : String) : Option Float :=
  let (negative, cs) := takeSign s.toList
  ((decimal? cs).or (word? cs)).map fun x => if negative then -x else x

/-- Reads a natural number below `bound`. -/
def naturalBelow? (bound : Nat) (s : String) : Option Nat :=
  let ds := match s.toList with
    | '+' :: cs => cs
    | cs => cs
  if ds.isEmpty || !ds.all Char.isDigit then none
  else if ofDigits ds < bound then some (ofDigits ds) else none

/-- Reads a natural number of at most 64 bits. -/
def natural? (s : String) : Option Nat := naturalBelow? (Nat.pow 2 64) s

end Number
end VisualBlocks

/-!
# Free names

Names are handed out by trying numbered candidates until one is free.  Among `n + 1` different
candidates one is outside a list of `n` names, so the search is bounded by the length of that list.
-/

set_option autoImplicit false

namespace VisualBlocks
namespace Text

/-- The first of the candidates from number `start` on that is not taken, among the first
`fuel + 1` of them. -/
def firstFree (taken : List String) (candidate : Nat → String) (start : Nat) : Nat → String
  | 0 => candidate start
  | fuel + 1 =>
    if taken.contains (candidate start) then firstFree taken candidate (start + 1) fuel
    else candidate start

/-- The first candidate from number `start` on that is not taken. -/
def free (taken : List String) (candidate : Nat → String) (start : Nat) : String :=
  firstFree taken candidate start taken.length

/-- The candidates for a base name: the name itself, then the name with a number from two on. -/
def numbered (base : String) (n : Nat) : String := if n ≤ 1 then base else base ++ toString n

end Text
end VisualBlocks

/-!
# White space

The white space of a program text is the Unicode property `White_Space`: 25 characters in ten
ranges, ASCII and beyond.  Everything that trims, skips or recognises a blank line asks `isBlank`.

* `isBlank` decides the property.
* `trim`, `trimEnd` and `isBlankText` are its lifts to texts.
-/

set_option autoImplicit false

namespace VisualBlocks
namespace Text

/-- Does the code point of `c` lie in one of the closed ranges? -/
def inRanges (ranges : List (Nat × Nat)) (c : Char) : Bool :=
  ranges.any fun r => r.1 ≤ c.toNat && c.toNat ≤ r.2

/-- The code points of white space, as ascending closed ranges. -/
def blankRanges : List (Nat × Nat) :=
  [(0x09, 0x0D), (0x20, 0x20), (0x85, 0x85), (0xA0, 0xA0), (0x1680, 0x1680), (0x2000, 0x200A),
   (0x2028, 0x2029), (0x202F, 0x202F), (0x205F, 0x205F), (0x3000, 0x3000)]

/-- Is `c` white space? -/
def isBlank (c : Char) : Bool := inRanges blankRanges c

/-- Drops the white space at the end. -/
def dropBlankEnd (cs : List Char) : List Char := (cs.reverse.dropWhile isBlank).reverse

/-- The text without the white space at its end. -/
def trimEnd (s : String) : String := String.ofList (dropBlankEnd s.toList)

/-- The text without the white space at either end. -/
def trim (s : String) : String := String.ofList (dropBlankEnd (s.toList.dropWhile isBlank))

/-- Does the text consist of white space only? -/
def isBlankText (s : String) : Bool := s.toList.all isBlank

/-- What is left after dropping white space at the end does not end in white space. -/
theorem getLast?_dropBlankEnd (cs : List Char) (c : Char)
    (h : (dropBlankEnd cs).getLast? = some c) : isBlank c = false := by
  rw [dropBlankEnd, List.getLast?_reverse] at h
  have := List.head?_dropWhile_not isBlank cs.reverse
  rw [h] at this
  simpa using this

end Text
end VisualBlocks

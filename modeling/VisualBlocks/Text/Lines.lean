import VisualBlocks.Text.Blank

/-!
# Lines

A text is cut into segments, each ending with its line break except possibly the last, so that
putting the segments one after the other gives the text back (`flatten_segments`).  The two passes
of the printed layout work segment by segment:

* `indentWith` puts a mark in front of every line that is not blank;
* `tidy` removes the white space at the ends of lines and the blank lines at both ends.
-/

set_option autoImplicit false

namespace VisualBlocks
namespace Text

/-- The text cut after every line break. -/
def segments : List Char → List (List Char)
  | [] => []
  | c :: cs =>
    if c = '\n' then [c] :: segments cs
    else
      match segments cs with
      | [] => [[c]]
      | s :: rest => (c :: s) :: rest

/-- Cutting loses nothing. -/
theorem flatten_segments (cs : List Char) : (segments cs).flatten = cs := by
  induction cs with
  | nil => rfl
  | cons c cs ih =>
    unfold segments
    split
    · simp [ih]
    · split
      · next h => simp [h] at ih; simp [ih]
      · next h => simp [h] at ih; simp [ih]

/-- Puts `mark` in front of every line of `text` that holds more than white space. -/
def indentWith (mark text : String) : String :=
  String.ofList ((segments text.toList).flatMap fun line =>
    if line.all isBlank then line else mark.toList ++ line)

/-- Drops the blank lines at both ends. -/
def dropBlankLines (lines : List (List Char)) : List (List Char) :=
  ((lines.dropWhile List.isEmpty).reverse.dropWhile List.isEmpty).reverse

/-- The text without white space at the ends of its lines and without blank lines at its two ends;
what is left ends with one line break. -/
def tidy (text : String) : String :=
  String.ofList ((dropBlankLines ((segments text.toList).map dropBlankEnd)).flatMap (· ++ ['\n']))

/-- Every occurrence of `target`, found from left to right without overlap, becomes `substitute`. -/
def replaceAll (target substitute : List Char) : List Char → List Char
  | [] => []
  | c :: cs =>
    if target ≠ [] ∧ target.isPrefixOf (c :: cs) then
      substitute ++ replaceAll target substitute (cs.drop (target.length - 1))
    else c :: replaceAll target substitute cs
termination_by cs => cs.length
decreasing_by
  · simp only [List.length_drop, List.length_cons]; omega
  · simp

end Text
end VisualBlocks

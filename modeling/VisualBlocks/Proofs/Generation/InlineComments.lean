import VisualBlocks.Generation.Script
import VisualBlocks.Proofs.Script.Respelling

/-!
# Comments inside a line

A comment inside a line is put around texts of any kind: the type of a block that no rule knows, or
a call on the engine with the expressions of its arguments, which may hold such comments themselves.
**It is nothing, whatever its text is and whatever follows it** (`tokenize_inlineComment`).  What
follows is cut into the same lexemes as if it stood alone, or the same is wrong with it.

Only the positions differ, since what follows stands behind the comment.
-/

set_option autoImplicit false

namespace VisualBlocks
namespace Generation

open Script

/-- A comment inside a line, with the closing marks in its text broken up. -/
theorem toList_inlineComment (text : String) :
    (scriptLanguage.inlineComment text).toList =
      '/' :: '*' :: ' ' :: (opened text.toList ++ [' ', '*', '/']) := by
  have hspaced : (Language.spaced scriptLanguage.closing).toList = ['*', ' ', '/'] :=
    spaced_closing
  rw [Language.inlineComment, hspaced, String.toList_append, String.toList_append,
    String.toList_append, String.toList_append, String.toList_ofList]
  simp only [scriptLanguage, opened]
  simp

/-- A comment inside a line is skipped, whatever follows. -/
theorem passage_inlineComment (text : String) :
    Passage (scriptLanguage.inlineComment text).toList [] := by
  rw [toList_inlineComment]
  exact passage_comment text.toList

/-- What is in a text behind a comment, is in the text itself. -/
theorem content_inlineComment (text rest : String) :
    content (tokenize (scriptLanguage.inlineComment text ++ rest)) = content (tokenize rest) := by
  have hscans := passage_inlineComment text rest.toList
  rw [← String.toList_append] at hscans
  rw [tokenize, tokenize, hscans.content .start .start]
  cases content (tokensFrom .start rest.toList) <;> rfl

/-- **A comment inside a line cannot be left early, and ends in time.**  Whatever its text is, and
whatever stands behind it: that is cut into tokens exactly if it is cut into tokens alone, and then
into the same ones but for their positions; and if there is a fault in it, it is the same fault. -/
theorem tokenize_inlineComment (text rest : String) :
    (∀ w, (∃ ts, tokenize (scriptLanguage.inlineComment text ++ rest) = .ok ts ∧ lexemes ts = w) ↔
      ∃ ts, tokenize rest = .ok ts ∧ lexemes ts = w) ∧
    ∀ fault, (∃ pos, tokenize (scriptLanguage.inlineComment text ++ rest) = .error ⟨fault, pos⟩) ↔
      ∃ pos, tokenize rest = .error ⟨fault, pos⟩ := by
  have hcontent := content_inlineComment text rest
  constructor
  · intro w
    rw [← content_eq_ok_iff, ← content_eq_ok_iff, hcontent]
  · intro fault
    rw [← content_eq_error_iff, ← content_eq_error_iff, hcontent]

end Generation
end VisualBlocks

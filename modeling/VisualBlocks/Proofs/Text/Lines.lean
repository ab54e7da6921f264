import Mathlib.Data.List.DropRight
import VisualBlocks.Text.Lines

/-!
# Tidy texts

`IsTidy` says how a text looks whose layout is in order, with no mention of how it was brought into
order: it is made of whole lines, no line ends in white space, and neither the first line nor the
last one is blank.

* `isTidy_tidy`: **tidying makes a text tidy**.
* `tidy_eq_self_iff`: **it changes nothing else**, a text that is tidy already stays as it is.  So
  tidying a second time does nothing (`tidy_tidy`).
* `IsTidy.ends`: a tidy text is empty, or one line break stands at its end and no second one.

Texts are taken line by line (`line_induction`), and `segments` is computed the same way
(`segments_ended`, `segments_line`).
-/

set_option autoImplicit false

namespace VisualBlocks
namespace Text

/-! ## Lines -/

/-- A line that is ended is the first segment. -/
theorem segments_ended {line : List Char} (h : '\n' ∉ line) (cs : List Char) :
    segments (line ++ '\n' :: cs) = (line ++ ['\n']) :: segments cs := by
  induction line with
  | nil => rw [List.nil_append, segments, if_pos rfl]; rfl
  | cons c line ih =>
    have hc : ¬ c = '\n' := fun hc => h (hc ▸ List.mem_cons_self)
    rw [List.cons_append, segments, if_neg hc, ih fun hl => h (List.mem_cons_of_mem _ hl)]
    rfl

/-- A line that is not ended is one segment. -/
theorem segments_line {line : List Char} (h : '\n' ∉ line) (hne : line ≠ []) :
    segments line = [line] := by
  induction line with
  | nil => exact absurd rfl hne
  | cons c line ih =>
    have hc : ¬ c = '\n' := fun hc => h (hc ▸ List.mem_cons_self)
    rw [segments, if_neg hc]
    by_cases hline : line = []
    · rw [hline]
      rfl
    · rw [ih (fun hl => h (List.mem_cons_of_mem _ hl)) hline]

/-- The segments of whole lines are the lines. -/
theorem segments_flatMap {lines : List (List Char)} (h : ∀ line ∈ lines, '\n' ∉ line) :
    segments (lines.flatMap (· ++ ['\n'])) = lines.map (· ++ ['\n']) := by
  induction lines with
  | nil => rfl
  | cons line lines ih =>
    obtain ⟨hline, hlines⟩ := List.forall_mem_cons.1 h
    rw [List.flatMap_cons, List.map_cons, List.append_assoc, List.singleton_append,
      segments_ended hline, ih hlines]

/-- Texts are looked at line by line; the last line may not be ended. -/
theorem line_induction {P : List Char → Prop} (nil : P [])
    (last : ∀ line, '\n' ∉ line → line ≠ [] → P line)
    (ended : ∀ line cs, '\n' ∉ line → P cs → P (line ++ '\n' :: cs)) (cs : List Char) : P cs := by
  induction hn : cs.length using Nat.strongRecOn generalizing cs with
  | ind n ih =>
    by_cases hbreak : '\n' ∈ cs
    · obtain ⟨line, rest, rfl, hline⟩ := List.eq_append_cons_of_mem hbreak
      rw [List.length_append, List.length_cons] at hn
      exact ended line rest hline (ih rest.length (by omega) rest rfl)
    · by_cases hcs : cs = []
      · rw [hcs]
        exact nil
      · exact last cs hbreak hcs

/-! ## What tidying takes away -/

theorem dropBlankEnd_eq (cs : List Char) : dropBlankEnd cs = cs.rdropWhile isBlank := rfl

theorem dropBlankLines_eq (lines : List (List Char)) :
    dropBlankLines lines = (lines.dropWhile List.isEmpty).rdropWhile List.isEmpty := rfl

/-- Dropping from the end, seen from the front. -/
theorem rdropWhile_cons {α : Type} (test : α → Bool) (x : α) (xs : List α) :
    (x :: xs).rdropWhile test =
      if xs.rdropWhile test = [] ∧ test x = true then [] else x :: xs.rdropWhile test := by
  induction xs using List.reverseRecOn with
  | nil =>
    rw [List.rdropWhile_singleton, List.rdropWhile_nil]
    simp
  | append_singleton xs y ih =>
    rw [← List.cons_append, List.rdropWhile_concat, List.rdropWhile_concat, ih]
    by_cases hy : test y = true
    · rw [if_pos hy, if_pos hy]
    · rw [if_neg hy, if_neg hy, if_neg fun h => List.concat_ne_nil y xs h.1, List.cons_append]

/-- What is dropped at the end of a text is white space. -/
theorem exists_blankEnd (cs : List Char) :
    ∃ g, cs = dropBlankEnd cs ++ g ∧ ∀ c ∈ g, isBlank c = true :=
  ⟨cs.rtakeWhile isBlank, List.rdropWhile_append_rtakeWhile.symm, fun _ => List.mem_rtakeWhile_imp⟩

/-- The end of a line is white space. -/
theorem dropBlankEnd_ended (line : List Char) :
    dropBlankEnd (line ++ ['\n']) = dropBlankEnd line :=
  List.rdropWhile_concat_pos isBlank line '\n' (by decide)

/-- A line that does not end in white space stays as it is. -/
theorem dropBlankEnd_eq_self {line : List Char} (h : ∀ c ∈ line.getLast?, isBlank c = false) :
    dropBlankEnd line = line := by
  rw [dropBlankEnd_eq, List.rdropWhile_eq_self_iff]
  intro hne
  rw [h _ (List.getLast_mem_getLast? hne)]
  exact Bool.false_ne_true

/-- No line break is left in a line. -/
theorem lineBreak_not_mem_dropBlankEnd {cs line : List Char}
    (h : line ∈ (segments cs).map dropBlankEnd) : '\n' ∉ line := by
  have hkept {line : List Char} (hline : '\n' ∉ line) : '\n' ∉ dropBlankEnd line :=
    fun hmem => hline ((List.rdropWhile_prefix isBlank line).subset hmem)
  induction cs using line_induction with
  | nil => cases h
  | last full hfull hne =>
    rw [segments_line hfull hne, List.map_singleton, List.mem_singleton] at h
    exact h ▸ hkept hfull
  | ended full cs hfull ih =>
    rw [segments_ended hfull, List.map_cons, List.mem_cons, dropBlankEnd_ended] at h
    rcases h with rfl | h
    · exact hkept hfull
    · exact ih h

/-- What is left of some lines begins with one that is not empty. -/
theorem head?_dropBlankLines {lines : List (List Char)} {line : List Char}
    (h : line ∈ (dropBlankLines lines).head?) : line ≠ [] := by
  have hfirst : line ∈ (lines.dropWhile List.isEmpty).head? := by
    obtain ⟨rest, hrest⟩ := List.rdropWhile_prefix List.isEmpty (lines.dropWhile List.isEmpty)
    rw [← hrest]
    exact List.mem_head?_append_of_mem_head? h
  have hstop := List.head?_dropWhile_not List.isEmpty lines
  rw [Option.mem_def.1 hfirst] at hstop
  rintro rfl
  cases hstop

/-- It ends with one that is not empty, too. -/
theorem getLast?_dropBlankLines {lines : List (List Char)} {line : List Char}
    (h : line ∈ (dropBlankLines lines).getLast?) : line ≠ [] := by
  obtain ⟨hne, rfl⟩ := List.mem_getLast?_eq_getLast h
  have hstop := List.rdropWhile_last_not List.isEmpty (lines.dropWhile List.isEmpty) hne
  rintro hempty
  exact hstop (List.isEmpty_iff.2 hempty)

/-! ## Tidy texts -/

/-- The lines of a text whose layout is in order. -/
structure TidyLines (lines : List (List Char)) : Prop where
  /-- A line does not go on after its line break. -/
  unbroken : ∀ line ∈ lines, '\n' ∉ line
  /-- No line ends in white space. -/
  solid : ∀ line ∈ lines, ∀ c ∈ line.getLast?, isBlank c = false
  /-- The first line is not blank. -/
  first : ∀ line ∈ lines.head?, line.all isBlank = false
  /-- The last line is not blank. -/
  last : ∀ line ∈ lines.getLast?, line.all isBlank = false

/-- Is the layout of the text in order?  All of its lines are ended, the last one too. -/
def IsTidy (text : String) : Prop :=
  ∃ lines, TidyLines lines ∧ text.toList = lines.flatMap (· ++ ['\n'])

/-- A line that has something in it and does not end in white space is not blank. -/
theorem not_all_isBlank {line : List Char} (hne : line ≠ [])
    (hsolid : ∀ c ∈ line.getLast?, isBlank c = false) : line.all isBlank = false := by
  rw [List.all_eq_false]
  refine ⟨line.getLast hne, List.getLast_mem hne, ?_⟩
  rw [hsolid _ (List.getLast_mem_getLast? hne)]
  exact Bool.false_ne_true

/-- **Tidying makes a text tidy.** -/
theorem isTidy_tidy (text : String) : IsTidy (tidy text) := by
  have hsub {line : List Char}
      (h : line ∈ dropBlankLines ((segments text.toList).map dropBlankEnd)) :
      line ∈ (segments text.toList).map dropBlankEnd :=
    (List.dropWhile_suffix _).subset ((List.rdropWhile_prefix _ _).subset h)
  have hsolid (line) (h : line ∈ dropBlankLines ((segments text.toList).map dropBlankEnd))
      (c) (hc : c ∈ line.getLast?) : isBlank c = false := by
    obtain ⟨segment, -, rfl⟩ := List.mem_map.1 (hsub h)
    exact getLast?_dropBlankEnd segment c hc
  refine ⟨_, ⟨fun line h => lineBreak_not_mem_dropBlankEnd (hsub h), hsolid, ?_, ?_⟩,
    String.toList_ofList⟩
  · intro line h
    exact not_all_isBlank (head?_dropBlankLines h) (hsolid line (List.mem_of_mem_head? h))
  · intro line h
    exact not_all_isBlank (getLast?_dropBlankLines h) (hsolid line (List.mem_of_mem_getLast? h))

theorem TidyLines.dropBlankLines_eq_self {lines : List (List Char)} (h : TidyLines lines) :
    dropBlankLines lines = lines := by
  have hfull {line : List Char} (hline : line.all isBlank = false) : ¬ line.isEmpty = true := by
    intro hempty
    rw [List.isEmpty_iff.1 hempty] at hline
    cases hline
  have hfirst : lines.dropWhile List.isEmpty = lines := by
    cases lines with
    | nil => rfl
    | cons line lines => exact List.dropWhile_cons_of_neg (hfull (h.first line rfl))
  rw [dropBlankLines_eq, hfirst, List.rdropWhile_eq_self_iff]
  exact fun hne => hfull (h.last _ (List.getLast_mem_getLast? hne))

/-- **A tidy text stays as it is.** -/
theorem IsTidy.tidy_eq_self {text : String} (h : IsTidy text) : tidy text = text := by
  obtain ⟨lines, hlines, htext⟩ := h
  have htrim : (lines.map (· ++ ['\n'])).map dropBlankEnd = lines := by
    rw [List.map_map]
    refine (List.map_congr_left fun line hline => ?_).trans (List.map_id lines)
    exact (dropBlankEnd_ended line).trans (dropBlankEnd_eq_self (hlines.solid line hline))
  rw [tidy, htext, segments_flatMap hlines.unbroken, htrim, hlines.dropBlankLines_eq_self, ← htext,
    String.ofList_toList]

theorem tidy_eq_self_iff {text : String} : tidy text = text ↔ IsTidy text :=
  ⟨fun h => h ▸ isTidy_tidy text, IsTidy.tidy_eq_self⟩

/-- Tidying a second time does nothing. -/
theorem tidy_tidy (text : String) : tidy (tidy text) = tidy text := (isTidy_tidy text).tidy_eq_self

/-- A tidy text is empty, or one line break stands at its end and no second one. -/
theorem IsTidy.ends {text : String} (h : IsTidy text) :
    text = "" ∨ ∃ front c, text.toList = front ++ [c, '\n'] ∧ c ≠ '\n' := by
  obtain ⟨lines, hlines, htext⟩ := h
  rcases List.eq_nil_or_concat lines with rfl | ⟨lines, line, rfl⟩
  · exact .inl (String.toList_eq_nil_iff.1 htext)
  · right
    have hline : line.all isBlank = false := hlines.last line (by simp)
    rcases List.eq_nil_or_concat line with rfl | ⟨line, c, rfl⟩
    · cases hline
    · refine ⟨lines.flatMap (· ++ ['\n']) ++ line, c, by simp [htext], ?_⟩
      rintro rfl
      exact hlines.unbroken (line ++ ['\n']) (by simp) (by simp)

end Text
end VisualBlocks

import VisualBlocks.Proofs.Script.Respacing
import VisualBlocks.Proofs.Text.Lines

/-!
# Layout keeps the program

A generated script is indented and tidied as a text, line by line, by passes that do not know
whether a line is code, or whether it stands in a comment that goes over several lines.

* Tidying drops white space in front of line breaks, and blank lines at both ends
  (`respaced_trimmed`, `exists_blankLines`).  **It keeps the lexemes of every text that is cut into
  tokens**, also if a string in it goes over the end of a line: there the line ends in a backslash,
  behind which nothing can be dropped.
* Indenting changes the beginnings of lines (`respaced_indented`).  **It keeps the lexemes if every
  string is written on one line.**

That the result of tidying is tidy, and stays as it is, is said of texts in general
(`Text.isTidy_tidy`, `Text.tidy_tidy`).
-/

set_option autoImplicit false

namespace VisualBlocks

open Script

namespace Script

theorem isSkipped_of_isBlank {c : Char} (h : Text.isBlank c = true) : isSkipped c = true := by
  rw [isSkipped, h, Bool.or_true]

/-! ## Indenting -/

/-- Indenting puts white space behind line breaks.  The first line has one in front of it, too. -/
theorem respaced_indented {mark : List Char} (hmark : Skipped mark) (cs : List Char) :
    Respaced True ('\n' :: cs) ('\n' :: (Text.segments cs).flatMap fun line =>
      if line.all Text.isBlank then line else mark ++ line) := by
  -- A segment is marked, possibly with nothing.
  have hmarked (line : List Char) : ∃ g, Reset True ['\n'] ('\n' :: g) ∧
      (if line.all Text.isBlank then line else mark ++ line) = g ++ line := by
    have hreset {g : List Char} (hg : Skipped g) : Reset True ['\n'] ('\n' :: g) :=
      .moved trivial ⟨skipped_lineBreak, List.mem_singleton_self _⟩
        ⟨skipped_lineBreak.append hg, List.mem_cons_self⟩
    split
    · exact ⟨[], hreset .nil, rfl⟩
    · exact ⟨mark, hreset hmark, rfl⟩
  induction cs using Text.line_induction with
  | nil => exact .refl _ _
  | last line hline hne =>
    obtain ⟨g, hreset, hg⟩ := hmarked line
    rw [Text.segments_line hline hne, List.flatMap_singleton, hg]
    exact .gap hreset (.refl _ line)
  | ended line cs hline ih =>
    obtain ⟨g, hreset, hg⟩ := hmarked (line ++ ['\n'])
    rw [Text.segments_ended hline, List.flatMap_cons, hg, List.append_assoc, List.append_assoc,
      List.singleton_append]
    exact .gap hreset (ih.append_left line)

/-! ## Tidying -/

/-- What is dropped at the end of a line is white space. -/
theorem exists_skippedEnd (line : List Char) :
    ∃ g, line = Text.dropBlankEnd line ++ g ∧ Skipped g := by
  obtain ⟨g, hsplit, hg⟩ := Text.exists_blankEnd line
  exact ⟨g, hsplit, fun c hc => isSkipped_of_isBlank (hg c hc)⟩

/-- Trimming the lines and leaving out the blank ones at the end drops white space in front of line
breaks and at the end. -/
theorem respaced_trimmed (cs : List Char) :
    Respaced False cs ((((Text.segments cs).map Text.dropBlankEnd).rdropWhile
      List.isEmpty).flatMap (· ++ ['\n'])) := by
  induction cs using Text.line_induction with
  | nil => exact .refl _ _
  | last line hline hne =>
    obtain ⟨g, hsplit, hg⟩ := exists_skippedEnd line
    rw [Text.segments_line hline hne, List.map_singleton, List.rdropWhile_singleton]
    split
    · next hempty =>
      rw [List.isEmpty_iff.1 hempty] at hsplit
      rw [hsplit]
      exact .finish hg .nil
    · rw [List.flatMap_singleton]
      nth_rewrite 1 [hsplit]
      exact Respaced.append_left (.finish hg skipped_lineBreak) _
  | ended line cs hline ih =>
    obtain ⟨g, hsplit, hg⟩ := exists_skippedEnd line
    rw [Text.segments_ended hline, List.map_cons, Text.dropBlankEnd_ended, Text.rdropWhile_cons]
    split
    · -- Nothing is left of the lines behind, so they are blank.
      next hempty =>
      obtain ⟨hrest, hempty⟩ := hempty
      rw [hrest] at ih
      rw [List.isEmpty_iff.1 hempty] at hsplit
      rw [hsplit]
      exact .finish (hg.append (skipped_lineBreak.append ih.skipped)) .nil
    · have hbreak : '\n' ∉ g := fun hmem => hline (hsplit ▸ List.mem_append_right _ hmem)
      rw [List.flatMap_cons, List.append_assoc]
      nth_rewrite 1 [hsplit]
      rw [List.append_assoc]
      refine Respaced.append_left ?_ _
      have hgap := Respaced.gap (.trimmed hg hbreak) ih
      rwa [List.append_assoc] at hgap

/-- The blank lines at the beginning are white space. -/
theorem exists_blankLines (cs : List Char) : ∃ g rest, cs = g ++ rest ∧ Skipped g ∧
    ((Text.segments cs).map Text.dropBlankEnd).dropWhile List.isEmpty =
      (Text.segments rest).map Text.dropBlankEnd := by
  have hblank {line : List Char} (h : (Text.dropBlankEnd line).isEmpty = true) : Skipped line := by
    obtain ⟨g, hsplit, hg⟩ := exists_skippedEnd line
    rw [List.isEmpty_iff.1 h] at hsplit
    exact hsplit ▸ hg
  induction cs using Text.line_induction with
  | nil => exact ⟨[], [], rfl, .nil, rfl⟩
  | last line hline hne =>
    by_cases hempty : (Text.dropBlankEnd line).isEmpty = true
    · refine ⟨line, [], (List.append_nil line).symm, hblank hempty, ?_⟩
      rw [Text.segments_line hline hne]
      exact List.dropWhile_cons_of_pos hempty
    · refine ⟨[], line, rfl, .nil, ?_⟩
      rw [Text.segments_line hline hne]
      exact List.dropWhile_cons_of_neg hempty
  | ended line cs hline ih =>
    have hsegments : (Text.segments (line ++ '\n' :: cs)).map Text.dropBlankEnd =
        Text.dropBlankEnd line :: (Text.segments cs).map Text.dropBlankEnd := by
      rw [Text.segments_ended hline, List.map_cons, Text.dropBlankEnd_ended]
    by_cases hempty : (Text.dropBlankEnd line).isEmpty = true
    · obtain ⟨g, rest, rfl, hg, hrest⟩ := ih
      refine ⟨line ++ ('\n' :: g), rest, by simp, (hblank hempty).append ?_, ?_⟩
      · exact skipped_lineBreak.append hg
      · rw [hsegments, List.dropWhile_cons_of_pos hempty, hrest]
    · refine ⟨[], line ++ '\n' :: cs, rfl, .nil, ?_⟩
      rw [hsegments, List.dropWhile_cons_of_neg hempty]

/-! ## What the passes keep -/

/-- **Indenting keeps the lexemes**, if every string is written on one line. -/
theorem content_indentWith {mark source : String} (hmark : Skipped mark.toList)
    (hstrings : ∀ word ∈ writtenStrings source.toList, '\n' ∉ word) {w : List Lexeme}
    (h : content (tokenize source) = .ok w) :
    content (tokenize (Text.indentWith mark source)) = .ok w := by
  have hbreak (cs : List Char) (pos pos' : Position) :
      content (tokensFrom pos ('\n' :: cs)) = content (tokensFrom pos' cs) :=
    skipped_lineBreak.content cs pos pos'
  have hwritten : writtenStrings ('\n' :: source.toList) = writtenStrings source.toList :=
    writtenStrings_skip rfl
  rw [tokenize, ← hbreak _ .start] at h
  rw [tokenize, Text.indentWith, String.toList_ofList, ← hbreak _ .start]
  exact (respaced_indented hmark source.toList).readsAlike (fun _ => hwritten ▸ hstrings) h _

/-- **Tidying keeps the lexemes.** -/
theorem content_tidy {source : String} {w : List Lexeme} (h : content (tokenize source) = .ok w) :
    content (tokenize (Text.tidy source)) = .ok w := by
  obtain ⟨g, rest, hsource, hg, hrest⟩ := exists_blankLines source.toList
  rw [tokenize, hsource, hg.content rest .start .start] at h
  rw [tokenize, Text.tidy, String.toList_ofList, Text.dropBlankLines_eq, hrest]
  exact (respaced_trimmed rest).readsAlike False.elim h _

/-- **The layout passes keep the program.**  A script that is cut into tokens is cut into the same
ones when it has been tidied.  So is it when its lines have been indented by white space, blanks and
tabs among it, if no string goes over the end of a line.  Tidying gives a tidy text, which is empty
or has one line break at its end, and doing it twice is doing it once. -/
theorem layout_keeps_program :
    (∀ (source : String) (ts : List Token), tokenize source = .ok ts →
      (∃ us, tokenize (Text.tidy source) = .ok us ∧ lexemes us = lexemes ts) ∧
      ((∀ word ∈ writtenStrings source.toList, '\n' ∉ word) →
        ∀ mark : String, (∀ c ∈ mark.toList, isSkipped c = true) →
          ∃ us, tokenize (Text.indentWith mark source) = .ok us ∧ lexemes us = lexemes ts)) ∧
    ∀ text : String,
      Text.tidy (Text.tidy text) = Text.tidy text ∧
      Text.IsTidy (Text.tidy text) ∧
      (Text.tidy text = "" ∨
        ∃ front c, (Text.tidy text).toList = front ++ [c, '\n'] ∧ c ≠ '\n') := by
  constructor
  · intro source ts hts
    have hcontent : content (tokenize source) = .ok (lexemes ts) :=
      content_eq_ok_iff.2 ⟨ts, hts, rfl⟩
    refine ⟨content_eq_ok_iff.1 (content_tidy hcontent), fun hstrings mark hmark => ?_⟩
    exact content_eq_ok_iff.1 (content_indentWith hmark hstrings hcontent)
  · intro text
    have htidy := Text.isTidy_tidy text
    exact ⟨Text.tidy_tidy text, htidy, htidy.ends⟩

/-- A script with blank lines around it, white space behind its lines, a comment over three lines
and a string with a line break in it that is spelt with a backslash. -/
def looseScript : String :=
  " \n\t\nif (a) \x7b // yes  \n b = 'x\\ny'; /* one \n\n two*\t\n/ */ b += 1; \r\n\x7d\n  \n "

theorem looseScript_kept :
    ∃ ts, tokenize looseScript = .ok ts ∧
      (∀ word ∈ writtenStrings looseScript.toList, '\n' ∉ word) ∧
      (∀ c ∈ "\t  ".toList, isSkipped c = true) ∧
      (∃ us, tokenize (Text.tidy looseScript) = .ok us ∧ lexemes us = lexemes ts) ∧
      ∃ us, tokenize (Text.indentWith "\t  " looseScript) = .ok us ∧ lexemes us = lexemes ts := by
  have htokens : (tokenize looseScript).isOk = true := by cbv
  have hstrings : writtenStrings looseScript.toList = ["'x\\ny'".toList] := by cbv
  cases hts : tokenize looseScript with
  | error e =>
    rw [hts] at htokens
    cases htokens
  | ok ts =>
    have hlines : ∀ word ∈ writtenStrings looseScript.toList, '\n' ∉ word := by
      rw [hstrings]
      decide
    have hmark : ∀ c ∈ "\t  ".toList, isSkipped c = true :=
      List.all_eq_true.1 (by decide)
    obtain ⟨htidy, hindent⟩ := layout_keeps_program.1 looseScript ts hts
    exact ⟨ts, rfl, hlines, hmark, htidy, hindent hlines _ hmark⟩

/-- A string over two lines does not survive indenting: the blank in front of its second line becomes
a part of it. -/
example :
    content (tokenize "'a\\\nb'") = .ok [⟨.string, "a\nb"⟩, ⟨.endOfInput, ""⟩] ∧
      content (tokenize (Text.indentWith " " "'a\\\nb'")) =
        .ok [⟨.string, "a\n b"⟩, ⟨.endOfInput, ""⟩] := by
  constructor <;> cbv

end Script

end VisualBlocks

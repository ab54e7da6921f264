import VisualBlocks.Proofs.Script.Pieces
import VisualBlocks.Proofs.Text.Lines

/-!
# Layout

A printed script is laid out in lines, and what is done to its layout is done line by line: bodies
are indented, white space at the ends of lines goes, and so do the blank lines at both ends.  None
of it changes the lexemes, because no lexeme and no comment goes over the end of a line.

* `Mark code w` and `Inline code w` are pieces of a line, cut into the lexemes `w` whatever
  follows, or if what follows is apart.
* A `Line` is a whole line, which does not end in white space, with its lexemes.
* `Lines code w`: the text is made of whole lines, and it is cut into the lexemes `w`.
* `Unfinished code w` is the same but for the last line, which is still to go on.

**Indenting and tidying keep the lexemes** (`Lines.indentWith`, `Lines.tidy`).
-/

set_option autoImplicit false

namespace VisualBlocks
namespace Script

/-! ## Pieces of a line -/

/-- A piece of a line that is cut into the lexemes whatever follows. -/
structure Mark (code : String) (w : List Lexeme) : Prop where
  reads : Passage code.toList w
  oneLine : '\n' ∉ code.toList

/-- A piece of a line that is cut into the lexemes if what follows is apart. -/
structure Inline (code : String) (w : List Lexeme) : Prop where
  reads : Phrase code.toList w
  oneLine : '\n' ∉ code.toList

theorem lineBreak_not_mem_append {a b : String} (ha : '\n' ∉ a.toList) (hb : '\n' ∉ b.toList) :
    '\n' ∉ (a ++ b).toList := by
  rw [String.toList_append, List.mem_append]
  exact fun h => h.elim ha hb

section Pieces

variable {a b : String} {v w : List Lexeme}

theorem Mark.inline (h : Mark a v) : Inline a v := ⟨h.reads.phrase, h.oneLine⟩

theorem Mark.append (ha : Mark a v) (hb : Mark b w) : Mark (a ++ b) (v ++ w) := by
  refine ⟨?_, lineBreak_not_mem_append ha.oneLine hb.oneLine⟩
  rw [String.toList_append]
  exact ha.reads.append hb.reads

theorem Mark.append_inline (ha : Mark a v) (hb : Inline b w) : Inline (a ++ b) (v ++ w) := by
  refine ⟨?_, lineBreak_not_mem_append ha.oneLine hb.oneLine⟩
  rw [String.toList_append]
  exact ha.reads.append_phrase hb.reads

/-- Does the text begin with something that cannot go on with a word or a number? -/
def StartsApart (code : String) : Prop :=
  ∃ c cs, code.toList = c :: cs ∧ isNamePart c = false ∧ c ≠ '.'

theorem Inline.append (ha : Inline a v) (hb : Mark b w) (hapart : StartsApart b) :
    Mark (a ++ b) (v ++ w) := by
  refine ⟨?_, lineBreak_not_mem_append ha.oneLine hb.oneLine⟩
  obtain ⟨c, cs, hcs, hc⟩ := hapart
  rw [String.toList_append]
  refine ha.reads.append hb.reads ?_ ?_
  · rw [hcs]
    exact List.cons_ne_nil c cs
  · rw [hcs]
    intro d hd
    obtain rfl : c = d := Option.some.inj hd
    exact hc

theorem StartsApart.append (ha : StartsApart a) : StartsApart (a ++ b) := by
  obtain ⟨c, cs, hcs, hc⟩ := ha
  exact ⟨c, cs ++ b.toList, by rw [String.toList_append, hcs]; rfl, hc⟩

end Pieces

/-! ## Whole lines -/

/-- A line and its lexemes. -/
structure Line where
  text : List Char
  lexemes : List Lexeme
  oneLine : '\n' ∉ text
  solid : ∀ c ∈ text.getLast?, Text.isBlank c = false
  reads : ∀ rest, Scans (text ++ '\n' :: rest) lexemes ('\n' :: rest)

theorem step_lineBreak (rest : List Char) : step ('\n' :: rest) = .skip ['\n'] rest := rfl

theorem Scans.length_le {cs rest : List Char} {w : List Lexeme} (h : Scans cs w rest) :
    rest.length ≤ cs.length := by
  induction h with
  | refl _ => exact Nat.le_refl _
  | skip h _ ih => exact Nat.le_trans ih (Nat.le_of_lt (length_of_step (by rw [h]; rfl)))
  | token h _ ih => exact Nat.le_trans ih (Nat.le_of_lt (length_of_step (by rw [h]; rfl)))

/-- Where nothing is taken there is no lexeme. -/
theorem Scans.eq_nil {cs : List Char} {w : List Lexeme} (h : Scans cs w cs) : w = [] := by
  have hstuck {mid taken : List Char} (hmid : Scans mid w cs ∨ ∃ v, Scans mid v cs)
      (hstep : (step cs).parts? = some (taken, mid)) : False := by
    have hlt := length_of_step hstep
    rcases hmid with hmid | ⟨v, hmid⟩ <;> exact absurd hmid.length_le (by omega)
  cases h with
  | refl _ => rfl
  | skip h hrest => exact (hstuck (.inl hrest) (by rw [h]; rfl)).elim
  | token h hrest => exact (hstuck (.inr ⟨_, hrest⟩) (by rw [h]; rfl)).elim

namespace Line

/-- The line with its end. -/
def ended (l : Line) : List Char := l.text ++ ['\n']

/-- The line without any text. -/
def blank : Line := ⟨[], [], by decide, nofun, fun _ => .refl _⟩

/-- The line of a piece that does not end in white space. -/
def ofMark {code : String} {w : List Lexeme} (h : Mark code w)
    (hsolid : ∀ c ∈ code.toList.getLast?, Text.isBlank c = false) : Line :=
  ⟨code.toList, w, h.oneLine, hsolid, fun rest => h.reads ('\n' :: rest)⟩

/-- The line that is a comment. -/
def comment (text : List Char) (honeLine : '\n' ∉ text) (hne : text ≠ [])
    (hsolid : ∀ c ∈ text.getLast?, Text.isBlank c = false) : Line where
  text := '/' :: '/' :: ' ' :: text
  lexemes := []
  oneLine := by
    rw [List.mem_cons, List.mem_cons, List.mem_cons]
    rintro (h | h | h | h)
    · exact absurd h (by decide)
    · exact absurd h (by decide)
    · exact absurd h (by decide)
    · exact honeLine h
  solid := by
    obtain ⟨c, cs, rfl⟩ := List.exists_cons_of_ne_nil hne
    exact hsolid
  reads rest := by
    have hblank : '\n' ∉ ' ' :: text := by
      rw [List.mem_cons]
      exact fun h => h.elim (fun h => absurd h (by decide)) honeLine
    exact scans_lineComment hblank rest

/-- A line without text has no lexemes. -/
theorem lexemes_of_blank (l : Line) (h : l.text = []) : l.lexemes = [] := by
  have hreads := l.reads []
  rw [h, List.nil_append] at hreads
  exact hreads.eq_nil

end Line

/-- The text consists of whole lines with the lexemes. -/
def Lines (code : String) (w : List Lexeme) : Prop :=
  ∃ ls : List Line, code.toList = ls.flatMap Line.ended ∧ w = ls.flatMap Line.lexemes

namespace Lines

variable {a b : String} {v w : List Lexeme}

theorem nil : Lines "" [] := ⟨[], rfl, rfl⟩

theorem append (ha : Lines a v) (hb : Lines b w) : Lines (a ++ b) (v ++ w) := by
  obtain ⟨ls, ha, rfl⟩ := ha
  obtain ⟨ms, hb, rfl⟩ := hb
  exact ⟨ls ++ ms, by rw [String.toList_append, ha, hb, List.flatMap_append],
    by rw [List.flatMap_append]⟩

/-- One line with its end. -/
theorem single (l : Line) {code : String} (h : code.toList = l.text) :
    Lines (code ++ "\n") l.lexemes := by
  refine ⟨[l], ?_, ?_⟩
  · rw [String.toList_append, h, List.flatMap_cons, List.flatMap_nil, List.append_nil]
    rfl
  · rw [List.flatMap_cons, List.flatMap_nil, List.append_nil]

/-- The line break that ends a blank line. -/
theorem lineBreak : Lines "\n" [] := ⟨[.blank], rfl, rfl⟩

/-- What follows whole lines cannot change them. -/
theorem passage (h : Lines a v) : Passage a.toList v := by
  obtain ⟨ls, ha, rfl⟩ := h
  rw [ha]
  clear ha
  induction ls with
  | nil => exact .nil
  | cons l ls ih =>
    rw [List.flatMap_cons, List.flatMap_cons]
    refine Passage.append (fun rest => ?_) ih
    have hreads : Scans (l.ended ++ rest) (l.lexemes ++ []) rest := by
      rw [Line.ended, List.append_assoc]
      exact (l.reads rest).append (.skip (step_lineBreak rest) (.refl rest))
    rwa [List.append_nil] at hreads

/-- A text of whole lines has the tokens of its lines. -/
theorem tokenize (h : Lines a v) :
    ∃ ts stop, lexemes ts = v ∧ Script.tokenize a = .ok (ts ++ [Token.closing stop]) := by
  have hscans := h.passage []
  rw [List.append_nil] at hscans
  exact tokenize_of_scans hscans

end Lines

/-! ## Indenting and tidying -/

/-- The segments of whole lines are the lines. -/
theorem segments_lines (ls : List Line) :
    Text.segments (ls.flatMap Line.ended) = ls.map Line.ended := by
  have hlines : ∀ line ∈ ls.map Line.text, '\n' ∉ line := by
    intro line hline
    obtain ⟨l, -, rfl⟩ := List.mem_map.1 hline
    exact l.oneLine
  have hsegments := Text.segments_flatMap hlines
  rw [List.flatMap_map, List.map_map] at hsegments
  exact hsegments

namespace Line

/-- The line with white space before it. -/
def indent (mark : List Char) (hskipped : Skipped mark) (hmark : '\n' ∉ mark)
    (l : Line) (hne : l.text ≠ []) : Line where
  text := mark ++ l.text
  lexemes := l.lexemes
  oneLine := by
    rw [List.mem_append]
    exact fun h => h.elim hmark l.oneLine
  solid := by
    intro c hc
    rw [List.getLast?_append, List.getLast?_eq_some_getLast hne, Option.some_or] at hc
    exact l.solid c (by rwa [List.getLast?_eq_some_getLast hne])
  reads rest := by
    rw [List.append_assoc]
    exact (hskipped.passage _).append (l.reads rest)

/-- A line with text is more than white space. -/
theorem not_all_blank (l : Line) (hne : l.text ≠ []) : l.ended.all Text.isBlank = false := by
  rw [ended, List.all_append, Text.not_all_isBlank hne l.solid, Bool.false_and]

theorem dropBlankEnd_ended (l : Line) : Text.dropBlankEnd l.ended = l.text :=
  (Text.dropBlankEnd_ended l.text).trans (Text.dropBlankEnd_eq_self l.solid)

end Line

/-- **Indenting keeps the lexemes.** -/
theorem Lines.indentWith {mark a : String} {v : List Lexeme}
    (hskipped : Skipped mark.toList) (hmark : '\n' ∉ mark.toList)
    (h : Lines a v) : Lines (Text.indentWith mark a) v := by
  obtain ⟨ls, ha, rfl⟩ := h
  rw [Text.indentWith, ha, segments_lines]
  clear ha
  induction ls with
  | nil => exact .nil
  | cons l ls ih =>
    rw [List.map_cons, List.flatMap_cons, List.flatMap_cons, String.ofList_append]
    refine Lines.append ?_ ih
    by_cases hne : l.text = []
    · have hall : l.ended.all Text.isBlank = true := by
        rw [Line.ended, hne]
        decide
      rw [if_pos hall]
      exact ⟨[l], by rw [String.toList_ofList]; simp, by simp⟩
    · rw [if_neg (by rw [l.not_all_blank hne]; exact Bool.false_ne_true)]
      refine ⟨[l.indent mark.toList hskipped hmark hne], ?_, ?_⟩
      · rw [String.toList_ofList, List.flatMap_cons, List.flatMap_nil, List.append_nil, Line.ended,
          Line.ended, Line.indent, List.append_assoc]
      · rw [List.flatMap_cons, List.flatMap_nil, List.append_nil]
        rfl

/-- Lines without text can be left out at the beginning. -/
theorem lexemes_dropWhile (ls : List Line) :
    (ls.dropWhile fun l => l.text.isEmpty).flatMap Line.lexemes = ls.flatMap Line.lexemes := by
  induction ls with
  | nil => rfl
  | cons l ls ih =>
    by_cases hne : l.text = []
    · rw [List.dropWhile_cons_of_pos (by rw [hne]; rfl), ih, List.flatMap_cons,
        l.lexemes_of_blank hne, List.nil_append]
    · rw [List.dropWhile_cons_of_neg (by rwa [List.isEmpty_iff])]

/-- Lines without text can be left out at the end. -/
theorem lexemes_dropWhile_reverse (ls : List Line) :
    (ls.dropWhile fun l => l.text.isEmpty).reverse.flatMap Line.lexemes =
      ls.reverse.flatMap Line.lexemes := by
  induction ls with
  | nil => rfl
  | cons l ls ih =>
    by_cases hne : l.text = []
    · rw [List.dropWhile_cons_of_pos (by rw [hne]; rfl), ih, List.reverse_cons, List.flatMap_append,
        List.flatMap_singleton, l.lexemes_of_blank hne, List.append_nil]
    · rw [List.dropWhile_cons_of_neg (by rwa [List.isEmpty_iff])]

/-- **Tidying keeps the lexemes.** -/
theorem Lines.tidy {a : String} {v : List Lexeme} (h : Lines a v) : Lines (Text.tidy a) v := by
  obtain ⟨ls, ha, rfl⟩ := h
  have htrim : (ls.map Line.ended).map Text.dropBlankEnd = ls.map Line.text := by
    rw [List.map_map]
    exact List.map_congr_left fun l _ => l.dropBlankEnd_ended
  have hdrop : Text.dropBlankLines (ls.map Line.text) =
      (((ls.dropWhile fun l => l.text.isEmpty).reverse.dropWhile
        fun l => l.text.isEmpty).reverse).map Line.text := by
    rw [Text.dropBlankLines, List.dropWhile_map, ← List.map_reverse, List.dropWhile_map,
      ← List.map_reverse]
    rfl
  refine ⟨((ls.dropWhile fun l => l.text.isEmpty).reverse.dropWhile
    fun l => l.text.isEmpty).reverse, ?_, ?_⟩
  · rw [Text.tidy, ha, segments_lines, htrim, hdrop, String.toList_ofList, List.flatMap_map]
    rfl
  · rw [lexemes_dropWhile_reverse, List.reverse_reverse, lexemes_dropWhile]

/-! ## Unfinished lines -/

/-- Does the text end in something that is no white space? -/
def Solid (code : String) : Prop := ∃ c, code.toList.getLast? = some c ∧ Text.isBlank c = false

theorem Solid.append {a b : String} (h : Solid b) : Solid (a ++ b) := by
  obtain ⟨c, hlast, hc⟩ := h
  exact ⟨c, by rw [String.toList_append, List.getLast?_append, hlast]; rfl, hc⟩

/-- The text consists of whole lines and of a line that is still to go on. -/
def Unfinished (code : String) (w : List Lexeme) : Prop :=
  ∃ (front piece : String) (u v : List Lexeme),
    code = front ++ piece ∧ w = u ++ v ∧ Lines front u ∧ Mark piece v

namespace Unfinished

variable {a b : String} {v w : List Lexeme}

theorem ofMark (h : Mark a v) : Unfinished a v := ⟨"", a, [], v, by simp, rfl, .nil, h⟩

theorem ofLines (h : Lines a v) : Unfinished a v :=
  ⟨a, "", v, [], by simp, by simp, h, ⟨.nil, by decide⟩⟩

theorem nil : Unfinished "" [] := ofLines .nil

/-- The line goes on with a piece. -/
theorem mark (ha : Unfinished a v) (hb : Mark b w) : Unfinished (a ++ b) (v ++ w) := by
  obtain ⟨front, piece, u, v, rfl, rfl, hfront, hpiece⟩ := ha
  exact ⟨front, piece ++ b, u, v ++ w, String.append_assoc, List.append_assoc u v w, hfront,
    hpiece.append hb⟩

/-- **The line ends here**, if it does not end in white space. -/
theorem ended (ha : Unfinished a v) (hsolid : Solid a) : Lines (a ++ "\n") v := by
  obtain ⟨front, piece, u, v, rfl, rfl, hfront, hpiece⟩ := ha
  obtain ⟨c, hlast, hc⟩ := hsolid
  have hcode : front ++ piece ++ "\n" = front ++ (piece ++ "\n") := String.append_assoc
  rw [hcode]
  refine hfront.append ?_
  by_cases hempty : piece.toList = []
  · have hreads := hpiece.reads []
    rw [hempty, List.nil_append] at hreads
    obtain rfl := hreads.eq_nil
    obtain rfl : piece = "" := String.toList_eq_nil_iff.1 hempty
    exact .lineBreak
  · refine Lines.single (Line.ofMark hpiece fun d hd => ?_) rfl
    rw [String.toList_append, List.getLast?_append, List.getLast?_eq_some_getLast hempty] at hlast
    rw [List.getLast?_eq_some_getLast hempty] at hd
    obtain rfl := Option.some.inj (hlast.symm.trans hd)
    exact hc

/-- A body in braces after a head. -/
theorem braced {head body : String} {u w : List Lexeme} (ha : Unfinished a v)
    (hhead : Inline head u) (hbody : Lines body w) :
    Unfinished (a ++ (head ++ " \x7b\n" ++ body ++ "\x7d"))
      (v ++ (u ++ .leftBrace :: (w ++ [.rightBrace]))) := by
  have hopening : Mark " \x7b" [.leftBrace] :=
    ⟨fun rest => .skip rfl (.token rfl (.refl rest)), by decide⟩
  have hopeningApart : StartsApart " \x7b" := ⟨' ', ['\x7b'], by decide, by decide, by decide⟩
  have hclosing : Mark "\x7d" [.rightBrace] := ⟨fun rest => .token rfl (.refl rest), by decide⟩
  have hsolid : Solid (a ++ (head ++ " \x7b")) :=
    Solid.append (Solid.append ⟨'\x7b', by decide, by decide⟩)
  have hlines := ((ha.mark (hhead.append hopening hopeningApart)).ended hsolid).append hbody
  have hwhole := (ofLines hlines).mark hclosing
  have hcode : a ++ (head ++ " \x7b\n" ++ body ++ "\x7d") =
      a ++ (head ++ " \x7b") ++ "\n" ++ body ++ "\x7d" := by
    have hbrace : (" \x7b\n" : String) = " \x7b" ++ "\n" := rfl
    rw [hbrace]
    simp only [String.append_assoc]
  have htext : v ++ (u ++ .leftBrace :: (w ++ [.rightBrace])) =
      v ++ (u ++ [.leftBrace]) ++ w ++ [.rightBrace] := by simp
  rw [hcode, htext]
  exact hwhole

end Unfinished

end Script
end VisualBlocks

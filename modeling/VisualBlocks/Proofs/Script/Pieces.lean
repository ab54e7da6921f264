import VisualBlocks.Generation.Language
import VisualBlocks.Proofs.Script.Scanning

/-!
# Texts and comments

The two places where arbitrary characters stand in a script.

* A quoted text is one lexeme, the text itself, whatever it holds: what would end it is escaped.
* A comment inside a line is nothing, whatever it holds: **its closing mark cannot occur before its
  end**, since every such mark in the text has been broken up (`commentRun?_opened`).
* A comment to the end of the line is nothing as far as the line goes, and this is no matter of
  what it holds but of where its first line break is.
-/

set_option autoImplicit false

namespace VisualBlocks
namespace Script

/-! ## Quoted texts -/

theorem stringRun?_escape (c : Char) {cs : List Char} {r : StringRun}
    (h : stringRun? '\'' cs = some r) :
    ∃ taken, stringRun? '\'' (escape c ++ cs) = some ⟨c :: r.value, taken, r.rest⟩ := by
  unfold escape
  split
  · exact ⟨'\\' :: '\\' :: r.taken, by simp [stringRun?, h, unescape]⟩
  · exact ⟨'\\' :: '\'' :: r.taken, by simp [stringRun?, h, unescape]⟩
  · exact ⟨'\\' :: 'n' :: r.taken, by simp [stringRun?, h, unescape]⟩
  · exact ⟨'\\' :: 'r' :: r.taken, by simp [stringRun?, h, unescape]⟩
  · next hslash hquote hline _ =>
    refine ⟨c :: r.taken, ?_⟩
    rw [List.singleton_append, stringRun?.eq_def]
    dsimp only
    rw [if_neg hquote, if_neg hslash, if_neg hline, h]
    rfl

/-- **An escaped text reads back**, and it ends where its closing quote stands. -/
theorem stringRun?_flatMap_escape (cs rest : List Char) :
    ∃ taken, stringRun? '\'' (cs.flatMap escape ++ '\'' :: rest) = some ⟨cs, taken, rest⟩ := by
  induction cs with
  | nil =>
    refine ⟨['\''], ?_⟩
    rw [List.flatMap_nil, List.nil_append, stringRun?.eq_def]
    rfl
  | cons c cs ih =>
    obtain ⟨taken, htaken⟩ := ih
    rw [List.flatMap_cons, List.append_assoc]
    exact stringRun?_escape c htaken

theorem quote_toList (text : String) :
    (quote text).toList = '\'' :: (text.toList.flatMap escape ++ ['\'']) := by
  rw [quote, String.toList_append, String.toList_append, String.toList_ofList,
    String.toList_ofList, List.append_assoc]
  rfl

/-- After a quote stands a text. -/
theorem step_of_stringRun? {cs : List Char} {r : StringRun} (h : stringRun? '\'' cs = some r) :
    step ('\'' :: cs) = .token .string (String.ofList r.value) ('\'' :: r.taken) r.rest := by
  have hslash (p : Prop) : ¬ ('\'' = '/' ∧ p) := fun h => absurd h.1 (by decide)
  rw [step, if_neg (by decide), if_neg (hslash _), if_neg (hslash _), if_pos (.inr rfl), h]

/-- **At a quoted text stands the text itself**, whatever follows. -/
theorem step_quote (text : String) (rest : List Char) :
    step ((quote text).toList ++ rest) = .token .string text (quote text).toList rest := by
  obtain ⟨taken, htaken⟩ := stringRun?_flatMap_escape text.toList rest
  have hstep : step ((quote text).toList ++ rest) = .token .string text ('\'' :: taken) rest := by
    rw [quote_toList, List.cons_append, List.append_assoc, List.singleton_append,
      step_of_stringRun? htaken, String.ofList_toList]
  have htext : '\'' :: taken ++ rest = (quote text).toList ++ rest :=
    (step_append (by rw [hstep]; rfl)).1
  rw [hstep, List.append_cancel_right htext]

/-- A quoted text is one lexeme, and nothing that follows it matters. -/
theorem passage_quote (text : String) : Passage (quote text).toList [⟨.string, text⟩] :=
  fun rest => .token (step_quote text rest) (.refl rest)

theorem lineBreak_not_mem_escape (c : Char) : '\n' ∉ escape c := by
  unfold escape
  split
  · decide
  · decide
  · decide
  · decide
  · next _ _ hline _ => exact fun h => hline (List.mem_singleton.1 h).symm

/-- There is no line break in a quoted text. -/
theorem lineBreak_not_mem_quote (text : String) : '\n' ∉ (quote text).toList := by
  rw [quote_toList, List.mem_cons, List.mem_append, List.mem_singleton, List.mem_flatMap]
  rintro (h | ⟨c, -, h⟩ | h)
  · exact absurd h (by decide)
  · exact lineBreak_not_mem_escape c h
  · exact absurd h (by decide)

/-! ## Comments to the end of the line -/

/-- What there is to the end of a line. -/
theorem lineRun_ended {line : List Char} (h : '\n' ∉ line) (rest : List Char) :
    lineRun (line ++ '\n' :: rest) = (line, '\n' :: rest) := by
  have hkeep : ∀ c ∈ line, decide (c ≠ '\n') = true := by
    intro c hc
    refine decide_eq_true ?_
    rintro rfl
    exact h hc
  rw [lineRun, List.takeWhile_append_of_pos hkeep, List.dropWhile_append_of_pos hkeep]
  simp

/-- A comment to the end of the line is nothing. -/
theorem scans_lineComment {cs : List Char} (hcs : '\n' ∉ cs) (rest : List Char) :
    Scans ('/' :: '/' :: (cs ++ '\n' :: rest)) [] ('\n' :: rest) := by
  have hline : '\n' ∉ '/' :: cs := List.not_mem_cons_of_ne_of_not_mem (by decide) hcs
  have hrun := lineRun_ended hline rest
  rw [List.cons_append] at hrun
  have hcomment : step ('/' :: '/' :: (cs ++ '\n' :: rest)) =
      .skip ('/' :: (lineRun ('/' :: (cs ++ '\n' :: rest))).1)
        (lineRun ('/' :: (cs ++ '\n' :: rest))).2 := rfl
  rw [hrun] at hcomment
  exact .skip hcomment (.refl _)

/-! ## Comments inside a line -/

/-- What breaks a closing mark up. -/
theorem spaced_closing : (Generation.Language.spaced "*/").toList = ['*', ' ', '/'] := by decide

/-- The text with its closing marks broken up. -/
def opened (cs : List Char) : List Char := Text.replaceAll ['*', '/'] ['*', ' ', '/'] cs

theorem opened_nil : opened [] = [] := by rw [opened, Text.replaceAll]

theorem opened_mark (cs : List Char) : opened ('*' :: '/' :: cs) = '*' :: ' ' :: '/' :: opened cs := by
  rw [opened, Text.replaceAll, if_pos ⟨List.cons_ne_nil _ _, rfl⟩]
  rfl

theorem opened_cons {c : Char} {cs : List Char} (h : ¬ (c = '*' ∧ cs.head? = some '/')) :
    opened (c :: cs) = c :: opened cs := by
  rw [opened, Text.replaceAll, if_neg ?_]
  · rfl
  · rintro ⟨-, hopens⟩
    refine h ?_
    cases cs with
    | nil => simp [List.isPrefixOf] at hopens
    | cons d ds =>
      simp only [List.isPrefixOf, Bool.and_true, Bool.and_eq_true, beq_iff_eq] at hopens
      exact ⟨hopens.1.symm, congrArg some hopens.2.symm⟩

/-- Texts are looked at mark by mark, and character by character where there is none. -/
theorem opened_induction {P : List Char → Prop} (nil : P [])
    (mark : ∀ cs, P cs → P ('*' :: '/' :: cs))
    (cons : ∀ c cs, ¬ (c = '*' ∧ cs.head? = some '/') → P cs → P (c :: cs)) (cs : List Char) :
    P cs := by
  induction hn : cs.length using Nat.strongRecOn generalizing cs with
  | ind n ih =>
    cases cs with
    | nil => exact nil
    | cons c cs =>
      rw [List.length_cons] at hn
      by_cases hmark : c = '*' ∧ cs.head? = some '/'
      · obtain ⟨rfl, hslash⟩ := hmark
        cases cs with
        | nil => cases hslash
        | cons d ds =>
          obtain rfl : d = '/' := Option.some.inj hslash
          rw [List.length_cons] at hn
          exact mark ds (ih ds.length (by omega) ds rfl)
      · exact cons c cs hmark (ih cs.length (by omega) cs rfl)

/-- Only a slash that was there at the beginning is there afterwards. -/
theorem head?_opened (cs : List Char) (h : (opened cs).head? = some '/') : cs.head? = some '/' := by
  induction cs using opened_induction with
  | nil => rw [opened_nil] at h; cases h
  | mark cs _ =>
    rw [opened_mark] at h
    exact absurd (Option.some.inj h) (by decide)
  | cons c cs hmark _ =>
    rw [opened_cons hmark] at h
    exact h

theorem commentRun?_cons {c : Char} {cs taken rest : List Char}
    (hmark : ¬ (c = '*' ∧ cs.head? = some '/')) (h : commentRun? cs = some (taken, rest)) :
    commentRun? (c :: cs) = some (c :: taken, rest) := by
  rw [commentRun?, h]
  · rfl
  · rintro ds rfl rfl
    exact hmark ⟨rfl, rfl⟩

/-- **A text whose closing marks are broken up does not end the comment it stands in.** -/
theorem commentRun?_opened (cs rest : List Char) :
    ∃ taken, commentRun? (opened cs ++ ' ' :: '*' :: '/' :: rest) = some (taken, rest) := by
  have hblank {ds taken : List Char} (h : commentRun? ds = some (taken, rest)) :
      commentRun? (' ' :: ds) = some (' ' :: taken, rest) :=
    commentRun?_cons (fun h => absurd h.1 (by decide)) h
  induction cs using opened_induction with
  | nil =>
    refine ⟨[' ', '*', '/'], ?_⟩
    rw [opened_nil, List.nil_append]
    exact hblank (by rw [commentRun?])
  | mark cs ih =>
    obtain ⟨taken, htaken⟩ := ih
    refine ⟨'*' :: ' ' :: '/' :: taken, ?_⟩
    rw [opened_mark]
    refine commentRun?_cons (fun h => absurd (Option.some.inj h.2) (by decide)) (hblank ?_)
    exact commentRun?_cons (fun h => absurd h.1 (by decide)) htaken
  | cons c cs hmark ih =>
    obtain ⟨taken, htaken⟩ := ih
    refine ⟨c :: taken, ?_⟩
    rw [opened_cons hmark]
    refine commentRun?_cons (fun h => hmark ⟨h.1, head?_opened cs ?_⟩) htaken
    have hhead := h.2
    cases hopened : opened cs with
    | nil =>
      rw [hopened] at hhead
      exact absurd (Option.some.inj hhead) (by decide)
    | cons d ds =>
      rw [hopened] at hhead
      exact hhead

/-- Only blanks are put in. -/
theorem mem_opened {c : Char} {cs : List Char} (h : c ∈ opened cs) : c ∈ cs ∨ c = ' ' := by
  induction cs using opened_induction with
  | nil => rw [opened_nil] at h; exact .inl h
  | mark cs ih =>
    rw [opened_mark, List.mem_cons, List.mem_cons, List.mem_cons] at h
    rcases h with rfl | rfl | rfl | h
    · exact .inl List.mem_cons_self
    · exact .inr rfl
    · exact .inl (List.mem_cons_of_mem _ List.mem_cons_self)
    · exact (ih h).imp_left fun h => List.mem_cons_of_mem _ (List.mem_cons_of_mem _ h)
  | cons d ds hmark ih =>
    rw [opened_cons hmark, List.mem_cons] at h
    rcases h with rfl | h
    · exact .inl List.mem_cons_self
    · exact (ih h).imp_left fun h => List.mem_cons_of_mem _ h

/-- After a slash and a star stands a comment. -/
theorem step_of_commentRun? {cs comment rest : List Char} (h : commentRun? cs = some (comment, rest)) :
    step ('/' :: '*' :: cs) = .skip ('/' :: '*' :: comment) rest := by
  rw [step, if_neg (by decide), if_neg fun h => absurd (Option.some.inj h.2) (by decide),
    if_pos ⟨rfl, rfl⟩, List.tail_cons, h]

/-- A comment inside a line is nothing, whatever it holds. -/
theorem passage_comment (cs : List Char) :
    Passage ('/' :: '*' :: ' ' :: (opened cs ++ [' ', '*', '/'])) [] := by
  intro rest
  obtain ⟨taken, htaken⟩ := commentRun?_opened cs rest
  have hrun : commentRun? (' ' :: (opened cs ++ ' ' :: '*' :: '/' :: rest)) =
      some (' ' :: taken, rest) := commentRun?_cons (fun h => absurd h.1 (by decide)) htaken
  have hcomment := step_of_commentRun? hrun
  have hassoc : '/' :: '*' :: ' ' :: (opened cs ++ [' ', '*', '/']) ++ rest =
      '/' :: '*' :: ' ' :: (opened cs ++ ' ' :: '*' :: '/' :: rest) := by simp
  rw [hassoc]
  exact .skip hcomment (.refl rest)

end Script
end VisualBlocks

import VisualBlocks.Proofs.Script.Cutting

/-!
# White space around line breaks

Two texts that differ only in the white space around their line breaks are cut into the same
lexemes.  This holds wherever the line breaks stand, in code, behind a comment to the end of the
line or inside a comment that goes over several lines, but for one place: a string may go over the
end of a line behind a backslash, and then the white space at the beginning of the next line is
part of it.

* `Reset` says what may become of the white space around a line break.  What stands before the
  line break may always be dropped; that lines are also `moved`, which changes their beginnings, is
  a parameter.
* `Respaced` relates texts that are the same but for that, and for white space at the end.
* `writtenStrings` are the strings of a text as they are spelt.

The lexer is at the same character in both texts, or at white space in both (`Respaced.front`), so
each of its runs stops in both texts or in none.  **A step takes the same from both**
(`Respaced.step`), and from that **the whole texts have the same lexemes** (`Respaced.readsAlike`).
-/

set_option autoImplicit false

namespace VisualBlocks
namespace Script

/-! ## Texts that are the same but for white space -/

/-- White space with a line break in it. -/
structure Gap (g : List Char) : Prop where
  skipped : Skipped g
  breaks : '\n' ∈ g

/-- What may become of the white space around a line break. -/
inductive Reset (moved : Prop) : List Char → List Char → Prop
  | trimmed {g : List Char} (h : Skipped g) (hline : '\n' ∉ g) :
      Reset moved (g ++ ['\n']) ['\n']
  | moved {g g' : List Char} (hmoved : moved) (h : Gap g) (h' : Gap g') : Reset moved g g'

/-- The second text is the first one with other white space around its line breaks, and possibly at
its end. -/
inductive Respaced (moved : Prop) : List Char → List Char → Prop
  | finish {g g' : List Char} (h : Skipped g) (h' : Skipped g') : Respaced moved g g'
  | same (c : Char) {cs ds : List Char} (h : Respaced moved cs ds) :
      Respaced moved (c :: cs) (c :: ds)
  | gap {g g' cs ds : List Char} (hg : Reset moved g g') (h : Respaced moved cs ds) :
      Respaced moved (g ++ cs) (g' ++ ds)

theorem skipped_lineBreak : Skipped ['\n'] := by
  intro c hc
  rw [List.mem_singleton.1 hc]
  decide

/-- On both sides there is a line break in the white space. -/
theorem Reset.gaps {moved : Prop} {g g' : List Char} (h : Reset moved g g') : Gap g ∧ Gap g' := by
  cases h with
  | trimmed h _ =>
    exact ⟨⟨h.append skipped_lineBreak, by simp⟩, skipped_lineBreak, List.mem_singleton_self _⟩
  | moved _ h h' => exact ⟨h, h'⟩

theorem Respaced.refl (moved : Prop) (cs : List Char) : Respaced moved cs cs := by
  induction cs with
  | nil => exact .finish .nil .nil
  | cons c cs ih => exact .same c ih

theorem Respaced.append_left {moved : Prop} {cs ds : List Char} (h : Respaced moved cs ds)
    (piece : List Char) : Respaced moved (piece ++ cs) (piece ++ ds) := by
  induction piece with
  | nil => exact h
  | cons c piece ih => exact .same c ih

/-- If nothing is left, nothing but white space was there. -/
theorem Respaced.skipped {moved : Prop} {cs : List Char} (h : Respaced moved cs []) : Skipped cs := by
  generalize hds : ([] : List Char) = ds at h
  cases h with
  | finish h _ => exact h
  | same c _ => cases hds
  | gap hg _ =>
    have hne := List.ne_nil_of_mem hg.gaps.2.breaks
    exact absurd (List.append_eq_nil_iff.1 hds.symm).1 hne

/-! ## Where runs stop -/

/-- Does the text begin with white space, or is it at its end? -/
def Pauses (cs : List Char) : Prop := ∀ c ∈ cs.head?, isSkipped c = true

theorem Skipped.pauses {g : List Char} (h : Skipped g) : Pauses g :=
  fun c hc => h c (List.mem_of_mem_head? hc)

theorem Gap.pauses {g : List Char} (h : Gap g) (cs : List Char) : Pauses (g ++ cs) := by
  obtain ⟨c, g, rfl⟩ := List.exists_cons_of_ne_nil (List.ne_nil_of_mem h.breaks)
  intro d hd
  obtain rfl : c = d := Option.some.inj hd
  exact h.skipped c List.mem_cons_self

theorem ne_of_isSkipped {c d : Char} (hc : isSkipped c = true) (hd : isSkipped d = false) :
    c ≠ d := by
  rintro rfl
  cases hc.symm.trans hd

theorem not_isNamePart_of_isSkipped {c : Char} (h : isSkipped c = true) : isNamePart c = false := by
  rw [Bool.eq_false_iff]
  intro hpart
  have hrange : 33 ≤ c.toNat ∧ c.toNat ≤ 126 := by
    have hcases : isNameStart c = true ∨ c.isDigit = true := by
      simp only [isNamePart, isNameStart, Char.isAlphanum, Bool.or_eq_true] at hpart ⊢
      tauto
    rcases hcases with hstart | hdigit
    · have := toNat_of_isNameStart hstart
      omega
    · have := toNat_of_isDigit hdigit
      omega
  rw [not_isSkipped hrange.1 hrange.2] at h
  cases h

theorem not_isDigit_of_isSkipped {c : Char} (h : isSkipped c = true) : c.isDigit = false := by
  rw [Bool.eq_false_iff]
  intro hdigit
  cases (isNamePart_of_isDigit hdigit).symm.trans (not_isNamePart_of_isSkipped h)

/-- A text that begins with white space is apart from a word or a number in front of it. -/
theorem Pauses.apart {cs : List Char} (h : Pauses cs) : Apart cs := fun c hc =>
  ⟨not_isNamePart_of_isSkipped (h c hc), ne_of_isSkipped (h c hc) (by decide)⟩

/-- White space is no part of a number. -/
theorem NumberPart.next?_of_isSkipped (part : NumberPart) {c : Char} (h : isSkipped c = true) :
    part.next? c = none := by
  have hdigit : ¬ c.isDigit = true := by simp [not_isDigit_of_isSkipped h]
  have hexp : ¬ (c = 'e' ∨ c = 'E') :=
    not_or.2 ⟨ne_of_isSkipped h (by decide), ne_of_isSkipped h (by decide)⟩
  have hsign : ¬ (c = '+' ∨ c = '-') :=
    not_or.2 ⟨ne_of_isSkipped h (by decide), ne_of_isSkipped h (by decide)⟩
  rw [NumberPart.next?, if_neg hdigit, if_neg (ne_of_isSkipped h (by decide)), if_neg hexp,
    if_neg hsign]

theorem Pauses.numberRun {cs : List Char} (h : Pauses cs) (part : NumberPart) :
    numberRun part cs = ([], cs) := by
  cases cs with
  | nil => rfl
  | cons c cs => rw [Script.numberRun, part.next?_of_isSkipped (h c rfl)]

section Respaced

variable {moved : Prop} {cs ds : List Char}

/-- **The lexer stands before white space in both texts, or before the same character.** -/
theorem Respaced.front (h : Respaced moved cs ds) :
    Pauses cs ∧ Pauses ds ∨ ∃ c cs' ds', isSkipped c = false ∧ cs = c :: cs' ∧ ds = c :: ds' ∧
      Respaced moved cs' ds' := by
  cases h with
  | finish h h' => exact .inl ⟨h.pauses, h'.pauses⟩
  | @same c cs ds h =>
    cases hc : isSkipped c with
    | false => exact .inr ⟨c, cs, ds, hc, rfl, rfl, h⟩
    | true =>
      have hpauses (cs : List Char) : Pauses (c :: cs) := fun d hd => Option.some.inj hd ▸ hc
      exact .inl ⟨hpauses cs, hpauses ds⟩
  | gap hg h => exact .inl ⟨hg.gaps.1.pauses _, hg.gaps.2.pauses _⟩

/-- A character that is no white space stands in both texts. -/
theorem Respaced.of_solid {c : Char} (hc : isSkipped c = false) (h : Respaced moved (c :: cs) ds) :
    ∃ ds', ds = c :: ds' ∧ Respaced moved cs ds' := by
  rcases h.front with ⟨hpauses, -⟩ | ⟨d, cs', ds', -, htext, hds, hrest⟩
  · cases hc.symm.trans (hpauses c rfl)
  · obtain ⟨rfl, rfl⟩ := List.cons.inj htext
    exact ⟨ds', hds, hrest⟩

theorem Respaced.head?_iff (h : Respaced moved cs ds) {c : Char} (hc : isSkipped c = false) :
    cs.head? = some c ↔ ds.head? = some c := by
  rcases h.front with ⟨hcs, hds⟩ | ⟨d, cs, ds, -, rfl, rfl, -⟩
  · have hne {es : List Char} (hes : Pauses es) : es.head? ≠ some c :=
      fun hhead => Bool.false_ne_true (hc.symm.trans (hes c hhead))
    exact iff_of_false (hne hcs) (hne hds)
  · exact Iff.rfl

/-- A test that no white space passes is passed at both fronts or at none. -/
theorem Respaced.head?_any (h : Respaced moved cs ds) {test : Char → Bool}
    (htest : ∀ c, isSkipped c = true → test c = false) : cs.head?.any test = ds.head?.any test := by
  rcases h.front with ⟨hcs, hds⟩ | ⟨d, cs, ds, -, rfl, rfl, -⟩
  · have hnone {es : List Char} (hes : Pauses es) : es.head?.any test = false := by
      cases es with
      | nil => rfl
      | cons e es => exact htest e (hes e rfl)
    rw [hnone hcs, hnone hds]
  · rfl

/-- To follow a run through both texts, one only has to say where it stops. -/
theorem Respaced.run_induction {motive : ∀ cs ds, Respaced moved cs ds → Prop}
    (pauses : ∀ cs ds h, Pauses cs → Pauses ds → motive cs ds h)
    (same : ∀ c cs ds h, isSkipped c = false → motive cs ds h →
      motive (c :: cs) (c :: ds) (.same c h))
    (h : Respaced moved cs ds) : motive cs ds h := by
  induction hn : cs.length using Nat.strongRecOn generalizing cs ds with
  | ind n ih =>
    rcases h.front with ⟨hcs, hds⟩ | ⟨c, cs, ds, hc, rfl, rfl, hrest⟩
    · exact pauses cs ds h hcs hds
    · exact same c cs ds hrest hc (ih cs.length (by simp [← hn]) hrest rfl)

/-! ## Runs -/

theorem Respaced.nameRun (h : Respaced moved cs ds) :
    (nameRun cs).1 = (nameRun ds).1 ∧ Respaced moved (nameRun cs).2 (nameRun ds).2 := by
  induction h using Respaced.run_induction with
  | pauses cs ds h hcs hds =>
    have hnone : ∀ c ∈ ([] : List Char), isNamePart c = true := nofun
    have hrun {es : List Char} (hes : Pauses es) : Script.nameRun es = ([], es) :=
      nameRun_of_apart hnone hes.apart
    rw [hrun hcs, hrun hds]
    exact ⟨rfl, h⟩
  | same c cs ds h hc ih =>
    have hletter (c : Char) (hc : isSkipped c = true) : (c.isAlpha || c = '_') = false := by
      rw [Bool.eq_false_iff]
      intro hcontinues
      cases (isNamePart_of_continues hcontinues).symm.trans (not_isNamePart_of_isSkipped hc)
    have hhead := h.head?_any hletter
    rw [Script.nameRun, Script.nameRun, hhead]
    split
    · exact ⟨congrArg (c :: ·) ih.1, ih.2⟩
    split
    · exact ⟨congrArg (c :: ·) ih.1, ih.2⟩
    · exact ⟨rfl, .same c h⟩

theorem Respaced.numberRun (h : Respaced moved cs ds) (part : NumberPart) :
    (numberRun part cs).1 = (numberRun part ds).1 ∧
      Respaced moved (numberRun part cs).2 (numberRun part ds).2 := by
  induction h using Respaced.run_induction generalizing part with
  | pauses cs ds h hcs hds =>
    rw [hcs.numberRun, hds.numberRun]
    exact ⟨rfl, h⟩
  | same c cs ds h hc ih =>
    rw [Script.numberRun, Script.numberRun]
    cases part.next? c with
    | none => exact ⟨rfl, .same c h⟩
    | some part => exact ⟨congrArg (c :: ·) (ih part).1, (ih part).2⟩

/-- A comment to the end of the line leaves the first line break of a gap, and what is left is
still one. -/
theorem Reset.lineRun {g g' : List Char} (h : Reset moved g g') (cs ds : List Char) :
    ∃ f f', (lineRun (g ++ cs)).2 = f ++ cs ∧ (lineRun (g' ++ ds)).2 = f' ++ ds ∧
      Reset moved f f' := by
  have hbreaks {g : List Char} (hg : Gap g) :
      ∃ f, (∀ cs, (Script.lineRun (g ++ cs)).2 = f ++ cs) ∧ Gap f := by
    obtain ⟨before, after, rfl, hbefore⟩ := List.eq_append_cons_of_mem hg.breaks
    refine ⟨'\n' :: after, fun cs => ?_, fun c hc => hg.skipped c (List.mem_append_right _ hc),
      List.mem_cons_self⟩
    rw [List.append_assoc, List.cons_append, lineRun_ended hbefore]
  cases h with
  | @trimmed g h hline =>
    refine ⟨['\n'], ['\n'], ?_, rfl, .trimmed .nil List.not_mem_nil⟩
    rw [List.append_assoc, List.singleton_append, lineRun_ended hline]
  | moved hmoved h h' =>
    obtain ⟨f, hf, hgap⟩ := hbreaks h
    obtain ⟨f', hf', hgap'⟩ := hbreaks h'
    exact ⟨f, f', hf cs, hf' ds, .moved hmoved hgap hgap'⟩

theorem Respaced.lineRun (h : Respaced moved cs ds) :
    Respaced moved (lineRun cs).2 (lineRun ds).2 := by
  induction h with
  | finish h h' =>
    have hrest {g : List Char} (hg : Skipped g) : Skipped (Script.lineRun g).2 :=
      fun c hc => hg c ((List.dropWhile_suffix _).subset hc)
    exact .finish (hrest h) (hrest h')
  | same c h ih =>
    by_cases hc : c = '\n'
    · subst hc
      exact .same '\n' h
    · have hrun (cs : List Char) : (Script.lineRun (c :: cs)).2 = (Script.lineRun cs).2 := by
        simp [Script.lineRun, hc]
      rw [hrun, hrun]
      exact ih
  | @gap g g' cs ds hg h ih =>
    obtain ⟨f, f', hf, hf', hreset⟩ := hg.lineRun cs ds
    rw [hf, hf']
    exact .gap hreset h

/-- There is no closing mark in white space. -/
theorem commentRun?_skipped {g : List Char} (h : Skipped g) (cs : List Char) :
    commentRun? (g ++ cs) = (commentRun? cs).map fun run => (g ++ run.1, run.2) := by
  induction g with
  | nil =>
    rw [List.nil_append]
    cases commentRun? cs <;> rfl
  | cons c g ih =>
    have hrun := ih fun d hd => h d (List.mem_cons_of_mem _ hd)
    rw [List.cons_append, commentRun?, hrun]
    · cases commentRun? cs <;> rfl
    · rintro rest rfl -
      cases h '*' List.mem_cons_self

/-- A comment ends at the same closing mark. -/
theorem Respaced.commentRun? (h : Respaced moved cs ds) {taken rest : List Char}
    (hrun : commentRun? cs = some (taken, rest)) :
    ∃ taken' rest', commentRun? ds = some (taken', rest') ∧ Respaced moved rest rest' := by
  induction h generalizing taken with
  | @finish g g' h h' =>
    have hnone := commentRun?_skipped h []
    rw [List.append_nil, hrun] at hnone
    cases hnone
  | @same c cs ds h ih =>
    by_cases hmark : c = '*' ∧ cs.head? = some '/'
    · obtain ⟨rfl, hhead⟩ := hmark
      obtain ⟨cs, rfl⟩ := List.head?_eq_some_iff.1 hhead
      obtain ⟨ds, rfl, hrelated⟩ := h.of_solid (by decide)
      rw [Script.commentRun?] at hrun
      cases hrun
      exact ⟨_, _, by rw [Script.commentRun?], hrelated⟩
    · rw [Script.commentRun?] at hrun
      · obtain ⟨⟨taken, rest⟩, hrest, hkeep⟩ := Option.map_eq_some_iff.1 hrun
        cases hkeep
        obtain ⟨taken', rest', hrun', hrelated⟩ := ih hrest
        have hmark' : ¬ (c = '*' ∧ ds.head? = some '/') := by
          rwa [← h.head?_iff (by decide)]
        exact ⟨_, rest', commentRun?_cons hmark' hrun', hrelated⟩
      · rintro rest rfl rfl
        exact hmark ⟨rfl, rfl⟩
  | @gap g g' cs ds hg h ih =>
    rw [commentRun?_skipped hg.gaps.1.skipped] at hrun
    obtain ⟨⟨taken, rest⟩, hrest, hkeep⟩ := Option.map_eq_some_iff.1 hrun
    cases hkeep
    obtain ⟨taken', rest', hrun', hrelated⟩ := ih hrest
    refine ⟨g' ++ taken', rest', ?_, hrelated⟩
    rw [commentRun?_skipped hg.gaps.2.skipped, hrun']
    rfl

/-! ## Strings -/

/-- White space does not close a string, and if a line break is met the string is not closed. -/
theorem stringRun?_none_of_isSkipped {quote : Char} (hquote : IsQuote quote) {c : Char}
    (hc : isSkipped c = true) {cs : List Char} (h : c = '\n' ∨ stringRun? quote cs = none) :
    stringRun? quote (c :: cs) = none := by
  have hclosed : c ≠ quote := by
    rcases hquote with rfl | rfl <;> exact ne_of_isSkipped hc (by decide)
  rw [stringRun?.eq_def]
  dsimp only
  rw [if_neg hclosed, if_neg (ne_of_isSkipped hc (by decide))]
  split
  · rfl
  · next hline => rw [h.resolve_left hline, Option.map_none]

theorem Skipped.stringRun? {quote : Char} (hquote : IsQuote quote) {g : List Char}
    (h : Skipped g) : stringRun? quote g = none := by
  induction g with
  | nil => rw [Script.stringRun?]
  | cons c g ih =>
    exact stringRun?_none_of_isSkipped hquote (h c List.mem_cons_self)
      (.inr (ih fun d hd => h d (List.mem_cons_of_mem _ hd)))

/-- No string goes over a gap, unless a backslash stands in front of it. -/
theorem Gap.stringRun? {quote : Char} (hquote : IsQuote quote) {g : List Char} (h : Gap g)
    (cs : List Char) : stringRun? quote (g ++ cs) = none := by
  obtain ⟨hskipped, hbreaks⟩ := h
  induction g with
  | nil => cases hbreaks
  | cons c g ih =>
    refine stringRun?_none_of_isSkipped hquote (hskipped c List.mem_cons_self) ?_
    rcases List.mem_cons.1 hbreaks with hc | hbreaks
    · exact .inl hc.symm
    · exact .inr (ih (fun d hd => hskipped d (List.mem_cons_of_mem _ hd)) hbreaks)

/-- **The characters of a string are the same in both texts**: one that is followed by the rest of a
string stands in no gap, or it is the line break that a line was trimmed at. -/
theorem Respaced.inString {quote : Char} (hquote : IsQuote quote) {c : Char}
    (h : Respaced moved (c :: cs) ds) (hrun : stringRun? quote cs ≠ none)
    (hline : moved → c ≠ '\n') : ∃ ds', ds = c :: ds' ∧ Respaced moved cs ds' := by
  generalize htext : c :: cs = text at h
  cases h with
  | finish h h' =>
    subst htext
    exact absurd (Skipped.stringRun? hquote fun d hd => h d (List.mem_cons_of_mem _ hd)) hrun
  | same d h =>
    obtain ⟨rfl, rfl⟩ := List.cons.inj htext
    exact ⟨_, rfl, h⟩
  | @gap g g' cs' ds' hg h =>
    have hgap {g₁ : List Char} (hcs : cs = g₁ ++ cs') : ¬ Gap g₁ := fun hg₁ =>
      hrun (hcs ▸ hg₁.stringRun? hquote cs')
    cases hg with
    | @trimmed g hg hbreak =>
      cases g with
      | nil =>
        obtain ⟨rfl, rfl⟩ := List.cons.inj htext
        exact ⟨_, rfl, h⟩
      | cons d g =>
        have hskipped : Skipped g := fun e he => hg e (List.mem_cons_of_mem _ he)
        exact (hgap (List.cons.inj htext).2 ⟨hskipped.append skipped_lineBreak, by simp⟩).elim
    | moved hmoved hg hg' =>
      obtain ⟨hskipped, hbreaks⟩ := hg
      cases g with
      | nil => cases hbreaks
      | cons d g =>
        obtain ⟨rfl, hcs⟩ := List.cons.inj htext
        refine (hgap hcs ⟨fun e he => hskipped e (List.mem_cons_of_mem _ he), ?_⟩).elim
        exact (List.mem_cons.1 hbreaks).resolve_left fun hc => hline hmoved hc.symm

/-- **A string ends at the same quote**, and it stands for the same text.  If lines may be moved, it
has to be written on one line. -/
theorem Respaced.stringRun? {quote : Char} (hquote : IsQuote quote) (h : Respaced moved cs ds)
    {r : StringRun} (hrun : stringRun? quote cs = some r) (hline : moved → '\n' ∉ r.taken) :
    ∃ r', stringRun? quote ds = some r' ∧ r'.value = r.value ∧ Respaced moved r.rest r'.rest := by
  fun_induction Script.stringRun? quote cs generalizing ds r with
  | case1 => cases hrun
  | case2 cs =>
    cases hrun
    obtain ⟨ds, rfl, hrest⟩ := h.of_solid (by rcases hquote with rfl | rfl <;> decide)
    refine ⟨⟨[], [quote], ds⟩, ?_, rfl, hrest⟩
    rw [Script.stringRun?.eq_def]
    exact if_pos rfl
  | case3 e cs hne ih =>
    obtain ⟨s, hs, rfl⟩ := Option.map_eq_some_iff.1 hrun
    have hescaped (hmoved : moved) : '\n' ≠ e ∧ '\n' ∉ s.taken :=
      not_or.1 fun hmem =>
        hline hmoved (List.mem_cons_of_mem _ (List.mem_cons.2 hmem))
    obtain ⟨es, rfl, hbehind⟩ := h.of_solid (by decide)
    obtain ⟨ds, rfl, hstring⟩ := hbehind.inString hquote (by rw [hs]; exact Option.some_ne_none s)
      fun hmoved => (hescaped hmoved).1.symm
    obtain ⟨r', hr', hvalue, hrest⟩ := ih hstring hs fun hmoved => (hescaped hmoved).2
    refine ⟨⟨unescape e :: r'.value, '\\' :: e :: r'.taken, r'.rest⟩, ?_,
      congrArg (unescape e :: ·) hvalue, hrest⟩
    rw [Script.stringRun?.eq_def]
    dsimp only
    rw [if_neg hne, if_pos rfl, hr']
    rfl
  | case4 => cases hrun
  | case5 => cases hrun
  | case6 c cs hclosed hslash hbreak ih =>
    obtain ⟨s, hs, rfl⟩ := Option.map_eq_some_iff.1 hrun
    obtain ⟨ds, rfl, hstring⟩ := h.inString hquote (by rw [hs]; exact Option.some_ne_none s)
      fun _ => hbreak
    obtain ⟨r', hr', hvalue, hrest⟩ := ih hstring hs fun hmoved hmem =>
      hline hmoved (List.mem_cons_of_mem c hmem)
    refine ⟨⟨c :: r'.value, c :: r'.taken, r'.rest⟩, ?_, congrArg (c :: ·) hvalue, hrest⟩
    rw [Script.stringRun?.eq_def]
    dsimp only
    rw [if_neg hclosed, if_neg hslash, if_neg hbreak, hr']
    rfl

end Respaced

/-! ## One step -/

/-- What a step finds in one text, another one finds in the other, and what they leave are texts of
the same kind.  Nothing is said of a fault, nor of a string over several lines if lines may be
moved. -/
def Step.KeptBy (moved : Prop) : Step → Step → Prop
  | .skip _ rest, s => ∃ taken rest', s = .skip taken rest' ∧ Respaced moved rest rest'
  | .token kind text taken rest, s => (moved → kind = .string → '\n' ∉ taken) →
      ∃ taken' rest', s = .token kind text taken' rest' ∧ Respaced moved rest rest'
  | .finished, _ => True
  | .fault _, _ => True

section Respaced

variable {moved : Prop} {cs ds : List Char}

theorem not_isSkipped_of_isOperatorStart {c : Char} (hc : isOperatorStart c = true) :
    isSkipped c = false := by
  simp only [isOperatorStart, List.contains_eq_mem, decide_eq_true_eq, List.mem_cons,
    List.not_mem_nil, or_false] at hc
  rcases hc with rfl | rfl | rfl | rfl | rfl | rfl | rfl | rfl | rfl | rfl | rfl <;> decide

/-- At a pause an operator is one sign. -/
theorem Pauses.operatorStep (h : Pauses cs) {c : Char} (hc : isOperatorStart c = true) :
    operatorStep c cs = if c = '&' ∨ c = '|' then .fault (.bitwiseOperator c)
      else .token .operator (String.singleton c) [c] cs := by
  cases cs with
  | nil => rfl
  | cons d cs =>
    have hd : isSkipped d = true := h d rfl
    have hsame : c ≠ d := (ne_of_isSkipped hd (not_isSkipped_of_isOperatorStart hc)).symm
    have hequals : d ≠ '=' := ne_of_isSkipped hd (by decide)
    unfold Script.operatorStep
    dsimp only
    rw [if_neg fun h => hsame h.1, if_neg fun h => hequals h.1, if_neg fun h => hequals h.1]

theorem Respaced.operatorStep {c : Char} (hc : isOperatorStart c = true) (h : Respaced moved cs ds) :
    (operatorStep c cs).KeptBy moved (operatorStep c ds) := by
  rcases h.front with ⟨hcs, hds⟩ | ⟨d, cs, ds, -, rfl, rfl, hrest⟩
  · rw [hcs.operatorStep hc, hds.operatorStep hc]
    split
    · exact trivial
    · exact fun _ => ⟨_, _, rfl, h⟩
  · unfold Script.operatorStep
    dsimp only
    split
    · exact fun _ => ⟨_, _, rfl, hrest⟩
    split
    · exact fun _ => ⟨_, _, rfl, hrest⟩
    split
    · -- A third sign is taken in both texts or in none.
      split
      · obtain ⟨ds, rfl, hbehind⟩ := hrest.of_solid (by decide)
        exact fun _ => ⟨_, _, rfl, hbehind⟩
      · next hthird =>
        split
        · have hhead := (hrest.head?_iff (c := '=') (by decide)).2 rfl
          obtain ⟨cs, rfl⟩ := List.head?_eq_some_iff.1 hhead
          exact (hthird cs rfl).elim
        · exact fun _ => ⟨_, _, rfl, hrest⟩
    split
    · exact trivial
    · exact fun _ => ⟨_, _, rfl, h⟩

/-- **A step takes the same from both texts.** -/
theorem Respaced.step {c : Char} (hc : isSkipped c = false) (h : Respaced moved cs ds) :
    (step (c :: cs)).KeptBy moved (step (c :: ds)) := by
  simp only [Script.step, hc, Bool.false_eq_true, if_false,
    ← h.head?_iff (show isSkipped '/' = false by decide),
    ← h.head?_iff (show isSkipped '*' = false by decide),
    ← h.head?_any fun _ => not_isDigit_of_isSkipped]
  split
  · exact ⟨_, _, rfl, h.lineRun⟩
  split
  · next hstar =>
    obtain ⟨cs, rfl⟩ := List.head?_eq_some_iff.1 hstar.2
    obtain ⟨ds, rfl, hinside⟩ := h.of_solid (by decide)
    rw [List.tail_cons, List.tail_cons]
    split
    · next hrun =>
      obtain ⟨taken, rest, hrun', hrest⟩ := hinside.commentRun? hrun
      rw [hrun']
      exact ⟨_, _, rfl, hrest⟩
    · exact trivial
  split
  · next hquote =>
    split
    · next r hrun =>
      intro hline
      obtain ⟨r', hrun', hvalue, hrest⟩ := h.stringRun? hquote hrun fun hmoved hmem =>
        hline hmoved rfl (List.mem_cons_of_mem c hmem)
      rw [hrun', ← hvalue]
      exact ⟨_, _, rfl, hrest⟩
    · exact trivial
  split
  · obtain ⟨htaken, hrest⟩ := (Respaced.same c h).numberRun .whole
    rw [htaken]
    exact fun _ => ⟨_, _, rfl, hrest⟩
  split
  · obtain ⟨htaken, hrest⟩ := h.nameRun
    rw [wordStep, wordStep, htaken]
    exact fun _ => ⟨_, _, rfl, hrest⟩
  split
  · exact fun _ => ⟨_, _, rfl, h⟩
  split
  · next hoperator => exact h.operatorStep hoperator
  · exact trivial

end Respaced

/-! ## Strings as they are written -/

/-- The strings of a text as they are spelt, with their quotes, as far as it is cut into tokens. -/
def writtenStrings (cs : List Char) : List (List Char) :=
  match h : step cs with
  | .finished => []
  | .skip _ rest =>
    have : rest.length < cs.length := length_of_step (by rw [h]; rfl)
    writtenStrings rest
  | .token kind _ taken rest =>
    have : rest.length < cs.length := length_of_step (by rw [h]; rfl)
    if kind = .string then taken :: writtenStrings rest else writtenStrings rest
  | .fault _ => []
termination_by cs.length

theorem writtenStrings_finished {cs : List Char} (h : step cs = .finished) :
    writtenStrings cs = [] := by
  rw [writtenStrings]
  split <;> simp_all

theorem writtenStrings_skip {cs taken rest : List Char} (h : step cs = .skip taken rest) :
    writtenStrings cs = writtenStrings rest := by
  rw [writtenStrings]
  split <;> simp_all

theorem writtenStrings_token {cs taken rest : List Char} {kind : TokenKind} {text : String}
    (h : step cs = .token kind text taken rest) : writtenStrings cs =
      if kind = .string then taken :: writtenStrings rest else writtenStrings rest := by
  rw [writtenStrings]
  split <;> simp_all

/-- They are the strings among the tokens of the text, one for each and in the same order. -/
theorem writtenStrings_spelt {pos : Position} {cs : List Char} {ts : List Token}
    (h : tokensFrom pos cs = .ok ts) :
    List.Forall₂ (fun t word => Spelt .string t.text word) (ts.filter fun t => t.kind = .string)
      (writtenStrings cs) := by
  fun_induction tokensFrom pos cs generalizing ts with
  | case1 pos cs hstep =>
    cases h
    rw [writtenStrings_finished hstep]
    exact .nil
  | case2 pos cs taken rest hstep hlt ih =>
    rw [writtenStrings_skip hstep]
    exact ih h
  | case3 pos cs kind text taken rest hstep hlt ih =>
    cases hrest : tokensFrom (pos.after taken) rest with
    | error e =>
      rw [hrest] at h
      cases h
    | ok us =>
      rw [hrest] at h
      cases h
      have hus := ih hrest
      rw [writtenStrings_token hstep]
      by_cases hkind : kind = .string
      · have hspelt := step_describes cs
        rw [hstep, hkind] at hspelt
        rw [if_pos hkind, List.filter_cons_of_pos (by simp [hkind])]
        exact .cons hspelt hus
      · rwa [if_neg hkind, List.filter_cons_of_neg (by simp [hkind])]
  | case4 pos cs fault hstep => cases h

theorem Scans.writtenStrings {cs rest : List Char} (h : Scans cs [] rest) :
    writtenStrings cs = writtenStrings rest := by
  generalize hw : ([] : List Lexeme) = w at h
  induction h with
  | refl _ => rfl
  | skip hstep _ ih => rw [writtenStrings_skip hstep, ih hw]
  | token _ _ _ => cases hw

/-! ## Whole texts -/

theorem Skipped.content {g : List Char} (h : Skipped g) (cs : List Char) (pos pos' : Position) :
    content (tokensFrom pos (g ++ cs)) = content (tokensFrom pos' cs) := by
  rw [(h.passage cs).content pos pos']
  cases Script.content (tokensFrom pos' cs) <;> rfl

/-- If the first text is cut into tokens, then the second one has the same lexemes.  If lines may be
moved, this is said of texts whose strings are each written on one line. -/
def ReadsAlike (moved : Prop) (cs ds : List Char) : Prop :=
  (moved → ∀ word ∈ writtenStrings cs, '\n' ∉ word) →
    ∀ {pos : Position} {w : List Lexeme}, content (tokensFrom pos cs) = .ok w →
      ∀ pos', content (tokensFrom pos' ds) = .ok w

section ReadsAlike

variable {moved : Prop} {cs ds : List Char}

/-- White space may be put in front. -/
theorem ReadsAlike.skipped (h : ReadsAlike moved cs ds) {g g' : List Char} (hg : Skipped g)
    (hg' : Skipped g') : ReadsAlike moved (g ++ cs) (g' ++ ds) := by
  intro hstrings pos w hw pos'
  rw [(hg.passage cs).writtenStrings] at hstrings
  rw [hg.content cs pos pos] at hw
  rw [hg'.content ds pos' pos']
  exact h hstrings hw pos'

/-- What holds behind a step holds in front of it. -/
theorem Step.KeptBy.readsAlike (h : (step cs).KeptBy moved (step ds)) (hne : cs ≠ [])
    (hbehind : ∀ {taken rest rest' : List Char}, (step cs).parts? = some (taken, rest) →
      Respaced moved rest rest' → ReadsAlike moved rest rest') : ReadsAlike moved cs ds := by
  intro hstrings pos w hw pos'
  have hdescribes := step_describes cs
  cases hstep : step cs with
  | finished =>
    rw [hstep] at hdescribes
    exact absurd hdescribes hne
  | fault fault =>
    rw [tokensFrom_fault hstep] at hw
    cases hw
  | skip taken rest =>
    rw [hstep] at h
    obtain ⟨taken', rest', hstep', hrest⟩ := h
    rw [tokensFrom_skip hstep] at hw
    rw [writtenStrings_skip hstep] at hstrings
    rw [tokensFrom_skip hstep']
    exact hbehind (by rw [hstep]; rfl) hrest hstrings hw _
  | token kind text taken rest =>
    rw [writtenStrings_token hstep] at hstrings
    have hline (hmoved : moved) : (kind = .string → '\n' ∉ taken) ∧
        ∀ word ∈ writtenStrings rest, '\n' ∉ word := by
      have hwords := hstrings hmoved
      by_cases hkind : kind = .string
      · rw [if_pos hkind, List.forall_mem_cons] at hwords
        exact ⟨fun _ => hwords.1, hwords.2⟩
      · rw [if_neg hkind] at hwords
        exact ⟨fun h => (hkind h).elim, hwords⟩
    rw [hstep] at h
    obtain ⟨taken', rest', hstep', hrest⟩ := h fun hmoved => (hline hmoved).1
    rw [tokensFrom_token hstep, content_map_cons] at hw
    rw [tokensFrom_token hstep', content_map_cons]
    cases hread : content (tokensFrom (pos.after taken) rest) with
    | error fault =>
      rw [hread] at hw
      cases hw
    | ok v =>
      rw [hbehind (by rw [hstep]; rfl) hrest (fun hmoved => (hline hmoved).2) hread]
      rw [hread] at hw
      exact hw

/-- **White space around line breaks is not seen.** -/
theorem Respaced.readsAlike (h : Respaced moved cs ds) : ReadsAlike moved cs ds := by
  induction hn : cs.length using Nat.strongRecOn generalizing cs ds with
  | ind n ih =>
    have hskipped {g g' cs' ds' : List Char} (hg : Skipped g) (hg' : Skipped g') (hne : g ≠ [])
        (hrest : Respaced moved cs' ds') (hcs : cs = g ++ cs') :
        ReadsAlike moved (g ++ cs') (g' ++ ds') := by
      refine ReadsAlike.skipped (ih _ ?_ hrest rfl) hg hg'
      have := List.length_pos_iff.2 hne
      rw [← hn, hcs, List.length_append]
      omega
    cases h with
    | finish h h' =>
      intro _ pos w hw pos'
      have hnothing := h.content [] pos pos'
      rw [List.append_nil, hw, ← h'.content [] pos' pos', List.append_nil] at hnothing
      exact hnothing.symm
    | @same c cs ds h =>
      cases hc : isSkipped c with
      | true =>
        have hone : Skipped [c] := fun d hd => List.mem_singleton.1 hd ▸ hc
        exact hskipped hone hone (List.cons_ne_nil c []) h rfl
      | false =>
        refine (h.step hc).readsAlike (List.cons_ne_nil c cs) fun hparts hrest => ?_
        exact ih _ (hn ▸ length_of_step hparts) hrest rfl
    | gap hg h =>
      obtain ⟨hgap, hgap'⟩ := hg.gaps
      exact hskipped hgap.skipped hgap'.skipped (List.ne_nil_of_mem hgap.breaks) h rfl

end ReadsAlike

end Script
end VisualBlocks

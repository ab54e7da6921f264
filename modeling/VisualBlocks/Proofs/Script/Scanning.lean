import VisualBlocks.Proofs.Script.Grammar
import VisualBlocks.Script.Lexer
import VisualBlocks.Script.Literal

/-!
# Scanning piece by piece

What a piece of text is cut into depends on what follows it: a name goes on as far as it can.  So
scanning is said with the remaining text present (`Scans`), and pieces are told apart by what they
ask of it.

* `Passage cs w`: whatever follows, `cs` is cut into the lexemes `w`.
* `Phrase cs w`: the same if what follows cannot go on with a word or a number (`Apart`).

Below these there is one lemma for each kind of piece: words, numbers, quoted texts, comments.  The
operators and the punctuation between them are settled by computation.
-/

set_option autoImplicit false

namespace VisualBlocks
namespace Script

/-- The front of a text is cut into the lexemes, and `rest` is left. -/
inductive Scans : List Char → List Lexeme → List Char → Prop
  | refl (rest : List Char) : Scans rest [] rest
  | skip {cs taken mid rest : List Char} {w : List Lexeme} (h : step cs = .skip taken mid)
      (hrest : Scans mid w rest) : Scans cs w rest
  | token {cs taken mid rest : List Char} {w : List Lexeme} {kind : TokenKind} {text : String}
      (h : step cs = .token kind text taken mid) (hrest : Scans mid w rest) :
      Scans cs (⟨kind, text⟩ :: w) rest

theorem Scans.append {cs mid rest : List Char} {v w : List Lexeme} (hv : Scans cs v mid)
    (hw : Scans mid w rest) : Scans cs (v ++ w) rest := by
  induction hv with
  | refl _ => exact hw
  | skip h _ ih => exact .skip h (ih hw)
  | token h _ ih => exact .token h (ih hw)

theorem tokensFrom_skip {cs taken rest : List Char} (h : step cs = .skip taken rest)
    (pos : Position) : tokensFrom pos cs = tokensFrom (pos.after taken) rest := by
  rw [tokensFrom]
  split
  · next heq => rw [h] at heq; cases heq
  · next heq => rw [h] at heq; cases heq; rfl
  · next heq => rw [h] at heq; cases heq
  · next heq => rw [h] at heq; cases heq

theorem tokensFrom_token {cs taken rest : List Char} {kind : TokenKind} {text : String}
    (h : step cs = .token kind text taken rest) (pos : Position) :
    tokensFrom pos cs = (tokensFrom (pos.after taken) rest).map (⟨kind, text, pos⟩ :: ·) := by
  rw [tokensFrom]
  split
  · next heq => rw [h] at heq; cases heq
  · next heq => rw [h] at heq; cases heq
  · next heq => rw [h] at heq; cases heq; rfl
  · next heq => rw [h] at heq; cases heq

theorem tokensFrom_finished {cs : List Char} (h : step cs = .finished) (pos : Position) :
    tokensFrom pos cs = .ok [Token.closing pos] := by
  rw [tokensFrom]
  split <;> simp_all

theorem tokensFrom_fault {cs : List Char} {fault : LexFault} (h : step cs = .fault fault)
    (pos : Position) : tokensFrom pos cs = .error ⟨fault, pos⟩ := by
  rw [tokensFrom]
  split <;> simp_all

/-- **A text that is cut into lexemes to its end has them for its tokens.** -/
theorem tokensFrom_of_scans {cs : List Char} {w : List Lexeme} (h : Scans cs w [])
    (pos : Position) :
    ∃ ts stop, lexemes ts = w ∧ tokensFrom pos cs = .ok (ts ++ [Token.closing stop]) := by
  generalize hrest : ([] : List Char) = rest at h
  induction h generalizing pos with
  | refl _ =>
    subst hrest
    exact ⟨[], pos, rfl, by rw [tokensFrom]; rfl⟩
  | @skip cs taken mid rest w h _ ih =>
    obtain ⟨ts, stop, hts, hread⟩ := ih (pos.after taken) hrest
    exact ⟨ts, stop, hts, by rw [tokensFrom_skip h, hread]⟩
  | @token cs taken mid rest w kind text h _ ih =>
    obtain ⟨ts, stop, hts, hread⟩ := ih (pos.after taken) hrest
    refine ⟨⟨kind, text, pos⟩ :: ts, stop, by rw [← hts]; rfl, ?_⟩
    rw [tokensFrom_token h, hread]
    rfl

theorem tokenize_of_scans {source : String} {w : List Lexeme} (h : Scans source.toList w []) :
    ∃ ts stop, lexemes ts = w ∧ tokenize source = .ok (ts ++ [Token.closing stop]) :=
  tokensFrom_of_scans h .start

/-! ## Pieces -/

/-- Does the text begin with something that cannot go on with a word or a number? -/
def Apart (rest : List Char) : Prop := ∀ c ∈ rest.head?, isNamePart c = false ∧ c ≠ '.'

/-- Whatever follows, the piece is cut into the lexemes. -/
def Passage (cs : List Char) (w : List Lexeme) : Prop := ∀ rest, Scans (cs ++ rest) w rest

/-- If what follows is apart, the piece is cut into the lexemes. -/
def Phrase (cs : List Char) (w : List Lexeme) : Prop := ∀ rest, Apart rest → Scans (cs ++ rest) w rest

theorem Passage.nil : Passage [] [] := fun rest => .refl rest

theorem Passage.phrase {cs : List Char} {w : List Lexeme} (h : Passage cs w) : Phrase cs w :=
  fun rest _ => h rest

theorem Passage.append {cs ds : List Char} {v w : List Lexeme} (hv : Passage cs v)
    (hw : Passage ds w) : Passage (cs ++ ds) (v ++ w) := by
  intro rest
  rw [List.append_assoc]
  exact (hv _).append (hw rest)

theorem Passage.append_phrase {cs ds : List Char} {v w : List Lexeme} (hv : Passage cs v)
    (hw : Phrase ds w) : Phrase (cs ++ ds) (v ++ w) := by
  intro rest hrest
  rw [List.append_assoc]
  exact (hv _).append (hw rest hrest)

/-- A phrase may be followed by a passage that begins apart. -/
theorem Phrase.append {cs ds : List Char} {v w : List Lexeme} (hv : Phrase cs v)
    (hw : Passage ds w) (hne : ds ≠ []) (hapart : Apart ds) : Passage (cs ++ ds) (v ++ w) := by
  intro rest
  rw [List.append_assoc]
  refine (hv _ ?_).append (hw rest)
  obtain ⟨d, ds, rfl⟩ := List.exists_cons_of_ne_nil hne
  exact hapart

/-! ## White space -/

/-- Nothing but white space. -/
def Skipped (cs : List Char) : Prop := ∀ c ∈ cs, isSkipped c = true

theorem Skipped.nil : Skipped [] := nofun

theorem Skipped.append {cs ds : List Char} (h : Skipped cs) (h' : Skipped ds) :
    Skipped (cs ++ ds) := fun c hc => (List.mem_append.1 hc).elim (h c) (h' c)

theorem Skipped.passage {cs : List Char} (h : Skipped cs) : Passage cs [] := by
  induction cs with
  | nil => exact .nil
  | cons c cs ih =>
    intro rest
    have hstep : step (c :: (cs ++ rest)) = .skip [c] (cs ++ rest) := by
      rw [step, h c List.mem_cons_self, if_pos rfl]
    exact .skip hstep (ih (fun d hd => h d (List.mem_cons_of_mem _ hd)) rest)

/-! ## Characters -/

/-- No character of the printable range but the blank is skipped. -/
theorem not_isSkipped {c : Char} (hlow : 33 ≤ c.toNat) (hhigh : c.toNat ≤ 126) :
    isSkipped c = false := by
  have hmark : ¬ c = '\uFEFF' := by
    rintro rfl
    exact absurd hhigh (by decide)
  have hblank : Text.isBlank c = false := by
    simp only [Text.isBlank, Text.inRanges, Text.blankRanges, List.any_cons, List.any_nil,
      Bool.or_eq_false_iff, Bool.and_eq_false_iff, decide_eq_false_iff_not, and_true]
    refine ⟨?_, ?_, ?_, ?_, ?_, ?_, ?_, ?_, ?_, ?_⟩ <;> omega
  rw [isSkipped, decide_eq_false hmark, hblank]
  rfl

theorem toNat_of_isDigit {c : Char} (h : c.isDigit = true) : 48 ≤ c.toNat ∧ c.toNat ≤ 57 := by
  simp only [Char.isDigit, Bool.and_eq_true, decide_eq_true_eq] at h
  exact h

theorem toNat_of_isAlpha {c : Char} (h : c.isAlpha = true) :
    (65 ≤ c.toNat ∧ c.toNat ≤ 90) ∨ (97 ≤ c.toNat ∧ c.toNat ≤ 122) := by
  have hcases : c.isUpper = true ∨ c.isLower = true := Bool.or_eq_true_iff.1 h
  rcases hcases with hupper | hlower
  · have hrange : c.val ≥ 'A'.val ∧ c.val ≤ 'Z'.val := of_decide_eq_true hupper
    exact .inl hrange
  · obtain ⟨hfrom, hto⟩ := Bool.and_eq_true_iff.1 hlower
    exact .inr ⟨of_decide_eq_true hfrom, of_decide_eq_true hto⟩

theorem toNat_of_isNameStart {c : Char} (h : isNameStart c = true) :
    c.toNat = 36 ∨ c.toNat = 95 ∨ (65 ≤ c.toNat ∧ c.toNat ≤ 90) ∨
      (97 ≤ c.toNat ∧ c.toNat ≤ 122) := by
  rw [isNameStart, Bool.or_eq_true, Bool.or_eq_true, decide_eq_true_eq, decide_eq_true_eq] at h
  rcases h with (h | rfl) | rfl
  · rcases toNat_of_isAlpha h with h | h
    · exact .inr (.inr (.inl h))
    · exact .inr (.inr (.inr h))
  · exact .inr (.inl rfl)
  · exact .inl rfl

theorem isNamePart_of_isDigit {c : Char} (h : c.isDigit = true) : isNamePart c = true := by
  rw [isNamePart, Char.isAlphanum, h, Bool.or_true]
  rfl

/-! ## Words -/

theorem nameRun_of_apart {cs rest : List Char} (hcs : ∀ c ∈ cs, isNamePart c = true)
    (hrest : Apart rest) : nameRun (cs ++ rest) = (cs, rest) := by
  induction cs with
  | nil =>
    cases rest with
    | nil => rfl
    | cons d rest =>
      obtain ⟨hpart, hpoint⟩ := hrest d rfl
      rw [List.nil_append, nameRun, hpart, if_neg Bool.false_ne_true, if_neg fun h => hpoint h.1]
  | cons c cs ih =>
    rw [List.cons_append, nameRun, if_pos (hcs c List.mem_cons_self),
      ih fun d hd => hcs d (List.mem_cons_of_mem _ hd)]
    rfl

/-- The characters of a word of the language or of a name without points. -/
structure IsWord (cs : List Char) : Prop where
  starts : ∃ c ds, cs = c :: ds ∧ isNameStart c = true
  parts : ∀ c ∈ cs, isNamePart c = true

theorem isWord_of_all {cs : List Char} (hstart : cs.head?.any isNameStart = true)
    (hall : cs.all isNamePart = true) : IsWord cs := by
  cases cs with
  | nil => cases hstart
  | cons c cs => exact ⟨⟨c, cs, rfl, hstart⟩, List.all_eq_true.1 hall⟩

/-- What a word is: a word of the language, or a name. -/
def wordLexeme (text : String) : Lexeme :=
  ⟨if keywords.contains text then .keyword else .name, text⟩

theorem step_word {c : Char} {cs rest : List Char} (hc : isNameStart c = true)
    (hrun : nameRun (cs ++ rest) = (cs, rest)) :
    step (c :: (cs ++ rest)) = wordStep (c :: cs) rest := by
  have hrange := toNat_of_isNameStart hc
  have hskipped : isSkipped c = false := not_isSkipped (by omega) (by omega)
  have hne (d : Char) (hd : d.toNat < 65) (hd' : d.toNat ≠ 36) : ¬ c = d := by
    rintro rfl
    omega
  have hdigit : ¬ c.isDigit = true := by
    intro h
    have := toNat_of_isDigit h
    omega
  rw [step, hskipped, if_neg Bool.false_ne_true,
    if_neg fun h => hne '/' (by decide) (by decide) h.1,
    if_neg fun h => hne '/' (by decide) (by decide) h.1,
    if_neg fun h => h.elim (hne '"' (by decide) (by decide)) (hne '\'' (by decide) (by decide)),
    if_neg fun h => h.elim hdigit fun h => hne '.' (by decide) (by decide) h.1, if_pos hc, hrun]

theorem IsWord.phrase {cs : List Char} (h : IsWord cs) :
    Phrase cs [wordLexeme (String.ofList cs)] := by
  intro rest hrest
  obtain ⟨c, ds, rfl, hc⟩ := h.starts
  have hrun := nameRun_of_apart (fun d hd => h.parts d (List.mem_cons_of_mem _ hd)) hrest
  exact .token (step_word hc hrun) (.refl rest)

/-! ## Numbers -/

theorem numberRun_of_apart {part : NumberPart} (hpart : part = .whole ∨ part = .places)
    {cs rest : List Char} (hcs : ∀ c ∈ cs, c.isDigit = true) (hrest : Apart rest) :
    numberRun part (cs ++ rest) = (cs, rest) := by
  have hmark : part ≠ .mark := by
    rcases hpart with rfl | rfl <;> exact NumberPart.noConfusion
  induction cs with
  | nil =>
    cases rest with
    | nil => rfl
    | cons d rest =>
      obtain ⟨hname, hpoint⟩ := hrest d rfl
      have hdigit : ¬ d.isDigit = true := by
        intro h
        rw [isNamePart_of_isDigit h] at hname
        cases hname
      have hexp : ¬ (d = 'e' ∨ d = 'E') := by
        rintro (rfl | rfl) <;> exact absurd hname (by decide)
      rw [List.nil_append, numberRun, NumberPart.next?, if_neg hdigit, if_neg hpoint, if_neg hexp,
        if_neg hmark, ite_self]
  | cons c cs ih =>
    rw [List.cons_append, numberRun, NumberPart.next?, if_pos (hcs c List.mem_cons_self),
      if_neg hmark]
    dsimp only
    rw [ih fun d hd => hcs d (List.mem_cons_of_mem _ hd)]
    rfl

/-- Digits, and possibly a point and digits behind it. -/
structure IsNumeral (cs : List Char) : Prop where
  split : ∃ ds es, (∀ c ∈ ds, c.isDigit = true) ∧ (∀ c ∈ es, c.isDigit = true) ∧ ds ≠ [] ∧
    (cs = ds ∨ cs = ds ++ '.' :: es)

theorem IsNumeral.starts {cs : List Char} (h : IsNumeral cs) :
    ∃ c ds, cs = c :: ds ∧ c.isDigit = true := by
  obtain ⟨ds, es, hds, -, hne, hcs⟩ := h.split
  obtain ⟨c, ds, rfl⟩ := List.exists_cons_of_ne_nil hne
  rcases hcs with rfl | rfl
  · exact ⟨c, ds, rfl, hds c List.mem_cons_self⟩
  · exact ⟨c, ds ++ '.' :: es, rfl, hds c List.mem_cons_self⟩

theorem IsNumeral.lineBreak_not_mem {cs : List Char} (h : IsNumeral cs) : '\n' ∉ cs := by
  obtain ⟨ds, es, hds, hes, -, hcs⟩ := h.split
  have hdigits {fs : List Char} (hfs : ∀ c ∈ fs, c.isDigit = true) : '\n' ∉ fs :=
    fun hmem => absurd (hfs '\n' hmem) (by decide)
  rcases hcs with rfl | rfl
  · exact hdigits hds
  · rw [List.mem_append, List.mem_cons]
    rintro (h | h | h)
    · exact hdigits hds h
    · exact absurd h (by decide)
    · exact hdigits hes h

theorem IsNumeral.numberRun {cs : List Char} (h : IsNumeral cs) {rest : List Char}
    (hrest : Apart rest) : numberRun .whole (cs ++ rest) = (cs, rest) := by
  obtain ⟨ds, es, hds, hes, -, rfl | rfl⟩ := h.split
  · exact numberRun_of_apart (.inl rfl) hds hrest
  · clear h
    induction ds with
    | nil =>
      have hplaces := numberRun_of_apart (.inr rfl) hes hrest
      rw [List.nil_append, List.cons_append, Script.numberRun]
      simp only [NumberPart.next?, if_neg (show ¬ Char.isDigit '.' = true by decide), if_true]
      rw [hplaces]
      rfl
    | cons d ds ih =>
      rw [List.cons_append, List.cons_append, Script.numberRun, NumberPart.next?,
        if_pos (hds d List.mem_cons_self), if_neg NumberPart.noConfusion]
      dsimp only
      rw [ih fun c hc => hds c (List.mem_cons_of_mem _ hc)]
      rfl

theorem IsNumeral.phrase {cs : List Char} (h : IsNumeral cs) :
    Phrase cs [⟨.number, String.ofList cs⟩] := by
  intro rest hrest
  have hrun := h.numberRun hrest
  obtain ⟨c, cs, rfl, hdigit⟩ := h.starts
  have hrange := toNat_of_isDigit hdigit
  have hskipped : isSkipped c = false := not_isSkipped (by omega) (by omega)
  have hne (d : Char) (hd : d.toNat < 48) : ¬ c = d := by
    rintro rfl
    omega
  rw [List.cons_append] at hrun ⊢
  have hstep : step (c :: (cs ++ rest)) = .token .number (String.ofList (c :: cs)) (c :: cs) rest := by
    rw [step, hskipped, if_neg Bool.false_ne_true, if_neg fun h => hne '/' (by decide) h.1,
      if_neg fun h => hne '/' (by decide) h.1,
      if_neg fun h => h.elim (hne '"' (by decide)) (hne '\'' (by decide)), if_pos (.inl hdigit),
      hrun]
  exact .token hstep (.refl rest)

end Script
end VisualBlocks

import Mathlib
import VisualBlocks.Proofs.Script.Pieces

/-!
# Spelling tokens out again

The tokens of a script, put down one after the other with a blank between them, are a script with
the same tokens.  Nothing else of the first script survives: comments are gone, `===` has become
`==`, and a text in double quotes stands in single ones.

* `Scanned` says what lexemes there are, with no text they come from.  **Every token that scanning
  yields is one of them** (`scanned_of_step`), **and each of them is scanned as itself** when
  nothing or a blank follows (`Scanned.scans`).
* `content` is what a text is cut into, or the fault in it, with no positions.  It does not depend
  on where the text begins (`content_tokensFrom`), so what follows a quoted text is cut as if it
  stood alone.

The longest match is what makes the second half of `Scanned.scans` work: a run of a name or of a
number ends with itself, so cutting the run again takes all of it (`nameRun_nameRun`,
`numberRun_numberRun`).
-/

set_option autoImplicit false

namespace VisualBlocks
namespace Script

/-! ## Lexemes -/

/-- The operators, as they are kept: a comparison never has three signs. -/
def operatorSymbols : List String :=
  ["+", "-", "*", "/", "%", "=", "!", "<", ">", "++", "--", "&&", "||", "+=", "-=", "*=", "/=",
    "%=", "<=", ">=", "==", "!="]

/-- Can a number begin with these characters? -/
def NumberStarts (c : Char) (cs : List Char) : Prop :=
  c.isDigit = true ∨ (c = '.' ∧ cs.head?.any Char.isDigit = true)

/-- The lexemes that there are. -/
inductive Scanned : Lexeme → Prop
  | string (text : String) : Scanned ⟨.string, text⟩
  | number {c : Char} {cs : List Char} (h : NumberStarts c cs) :
      Scanned ⟨.number, String.ofList (numberRun .whole (c :: cs)).1⟩
  | word {c : Char} (cs : List Char) (h : isNameStart c = true) :
      Scanned (wordLexeme (String.ofList (c :: (nameRun cs).1)))
  | punctuation {c : Char} {kind : TokenKind} (h : punctuation? c = some kind) :
      Scanned ⟨kind, String.singleton c⟩
  | operator {text : String} (h : text ∈ operatorSymbols) : Scanned (.operator text)

/-- A sign that is an operator by itself. -/
theorem scanned_single {c : Char} (hc : isOperatorStart c = true) (hbits : ¬ (c = '&' ∨ c = '|')) :
    Scanned (.operator (String.singleton c)) := by
  simp only [isOperatorStart, List.contains_eq_mem, decide_eq_true_eq, List.mem_cons,
    List.not_mem_nil, or_false] at hc
  rcases hc with rfl | rfl | rfl | rfl | rfl | rfl | rfl | rfl | rfl | rfl | rfl
  all_goals first
    | exact .operator (by decide)
    | exact absurd (by decide) hbits

/-- What is cut off where an operator begins is one of the operators. -/
theorem scanned_of_operatorStep {c : Char} {cs taken rest : List Char} {kind : TokenKind}
    {text : String} (hc : isOperatorStart c = true)
    (h : operatorStep c cs = .token kind text taken rest) : Scanned ⟨kind, text⟩ := by
  have hpair {d : Char} {signs : List Char} (hd : c ∈ signs)
      (hall : (signs.all fun c => operatorSymbols.contains (String.ofList [c, d])) = true) :
      Scanned (.operator (String.ofList [c, d])) :=
    .operator (List.contains_iff_mem.1 (List.all_eq_true.1 hall c hd))
  simp only [operatorStep, List.contains_eq_mem, decide_eq_true_eq] at h
  split at h
  · next d rest' =>
    split at h
    · next hdouble =>
      obtain ⟨rfl, hmem⟩ := hdouble
      cases h
      refine .operator ?_
      simp only [List.mem_cons, List.not_mem_nil, or_false] at hmem
      rcases hmem with rfl | rfl | rfl | rfl <;> decide
    split at h
    · next hequals =>
      obtain ⟨rfl, hmem⟩ := hequals
      cases h
      exact hpair hmem (by decide)
    split at h
    · next hequals =>
      obtain ⟨rfl, hmem⟩ := hequals
      split at h <;> cases h <;> exact hpair hmem (by decide)
    split at h
    · cases h
    · next hbits =>
      cases h
      exact scanned_single hc hbits
  · split at h
    · cases h
    · next hbits =>
      cases h
      exact scanned_single hc hbits

/-- **Every token that scanning yields is one of the lexemes.** -/
theorem scanned_of_step {cs taken rest : List Char} {kind : TokenKind} {text : String}
    (h : step cs = .token kind text taken rest) : Scanned ⟨kind, text⟩ := by
  unfold step at h
  split at h
  · cases h
  · next c cs =>
    split at h
    · cases h
    split at h
    · cases h
    split at h
    · split at h <;> cases h
    split at h
    · split at h
      · cases h
        exact .string _
      · cases h
    split at h
    · next hc =>
      cases h
      exact .number hc
    split at h
    · next hc =>
      cases h
      exact .word cs hc
    split at h
    · next kind' hkind =>
      cases h
      exact .punctuation hkind
    · split at h
      · next hc => exact scanned_of_operatorStep hc h
      · cases h

/-! ## Scanning a lexeme again -/

/-- How a lexeme is spelt. -/
def Lexeme.spelling (l : Lexeme) : String := if l.kind = .string then quote l.text else l.text

/-- Does nothing or a blank follow? -/
def Spaced (rest : List Char) : Prop := ∀ c ∈ rest.head?, c = ' '

theorem Spaced.cases {rest : List Char} (h : Spaced rest) : rest = [] ∨ ∃ cs, rest = ' ' :: cs := by
  cases rest with
  | nil => exact .inl rfl
  | cons c cs =>
    obtain rfl := h c rfl
    exact .inr ⟨cs, rfl⟩

theorem exists_cons_of_head?_any {cs : List Char} {test : Char → Bool}
    (h : cs.head?.any test = true) : ∃ d ds, cs = d :: ds ∧ test d = true := by
  cases cs with
  | nil => cases h
  | cons d ds => exact ⟨d, ds, rfl, h⟩

/-- What may follow a point in a name may stand in a name. -/
theorem isNamePart_of_continues {d : Char} (h : (d.isAlpha || d = '_') = true) :
    isNamePart d = true := by
  rw [Bool.or_eq_true, decide_eq_true_eq] at h
  rcases h with h | rfl
  · simp [isNamePart, Char.isAlphanum, h]
  · decide

/-- **A run of a name ends with itself**: the point before its last part is in it only with the
letter that comes after. -/
theorem nameRun_nameRun (cs : List Char) {rest : List Char} (hrest : Spaced rest) :
    nameRun ((nameRun cs).1 ++ rest) = ((nameRun cs).1, rest) := by
  induction cs with
  | nil =>
    obtain rfl | ⟨ds, rfl⟩ := hrest.cases
    · rfl
    · rfl
  | cons c cs ih =>
    have hstop : nameRun ([] ++ rest) = ([], rest) := by
      obtain rfl | ⟨ds, rfl⟩ := hrest.cases
      · rfl
      · rfl
    by_cases hpart : isNamePart c = true
    · rw [nameRun, if_pos hpart, keep, List.cons_append, nameRun, if_pos hpart, ih, keep]
    · by_cases hpoint : c = '.' ∧ cs.head?.any (fun d => d.isAlpha || d = '_') = true
      · have hhead : ((nameRun cs).1 ++ rest).head? = cs.head? := by
          obtain ⟨d, ds, rfl, hd⟩ := exists_cons_of_head?_any hpoint.2
          rw [nameRun, if_pos (isNamePart_of_continues hd)]
          rfl
        rw [nameRun, if_neg hpart, if_pos hpoint, keep, List.cons_append, nameRun, if_neg hpart,
          hhead, if_pos hpoint, ih, keep]
      · rw [nameRun, if_neg hpart, if_neg hpoint]
        exact hstop

/-- **A run of a number ends with itself.** -/
theorem numberRun_numberRun (part : NumberPart) (cs : List Char) {rest : List Char}
    (hrest : Spaced rest) :
    numberRun part ((numberRun part cs).1 ++ rest) = ((numberRun part cs).1, rest) := by
  have hstop (part : NumberPart) : numberRun part ([] ++ rest) = ([], rest) := by
    obtain rfl | ⟨ds, rfl⟩ := hrest.cases
    · rfl
    · rfl
  induction cs generalizing part with
  | nil => exact hstop part
  | cons c cs ih =>
    rw [numberRun]
    cases hnext : part.next? c with
    | none => exact hstop part
    | some part' =>
      dsimp only [keep]
      rw [List.cons_append, numberRun, hnext]
      dsimp only
      rw [ih part', keep]

/-- A run of a number can be the beginning of a number. -/
theorem NumberStarts.run {c : Char} {cs : List Char} (h : NumberStarts c cs) :
    ∃ ds, (numberRun .whole (c :: cs)).1 = c :: ds ∧ ∀ rest, NumberStarts c (ds ++ rest) := by
  rcases h with h | ⟨rfl, h⟩
  · refine ⟨(numberRun .whole cs).1, ?_, fun rest => .inl h⟩
    simp [numberRun, NumberPart.next?, h, keep]
  · obtain ⟨d, ds, rfl, hd⟩ := exists_cons_of_head?_any h
    refine ⟨d :: (numberRun .places ds).1, ?_, fun rest => .inr ⟨rfl, hd⟩⟩
    simp [numberRun, NumberPart.next?, hd, keep]

theorem step_number {c : Char} {cs : List Char} (h : NumberStarts c cs) :
    step (c :: cs) = .token .number (String.ofList (numberRun .whole (c :: cs)).1)
      (numberRun .whole (c :: cs)).1 (numberRun .whole (c :: cs)).2 := by
  have hrange : c.toNat = 46 ∨ (48 ≤ c.toNat ∧ c.toNat ≤ 57) := by
    rcases h with h | ⟨rfl, -⟩
    · exact .inr (toNat_of_isDigit h)
    · exact .inl rfl
  have hskipped : isSkipped c = false := not_isSkipped (by omega) (by omega)
  have hne (d : Char) (hd : d.toNat < 46 ∨ d.toNat = 47) : ¬ c = d := by
    rintro rfl
    omega
  rw [step, hskipped, if_neg Bool.false_ne_true, if_neg fun h => hne '/' (by decide) h.1,
    if_neg fun h => hne '/' (by decide) h.1,
    if_neg fun h => h.elim (hne '"' (by decide)) (hne '\'' (by decide))]
  exact if_pos h

theorem step_operator {text : String} (h : text ∈ operatorSymbols) {rest : List Char}
    (hrest : Spaced rest) :
    step (text.toList ++ rest) = .token .operator text text.toList rest := by
  obtain rfl | ⟨cs, rfl⟩ := hrest.cases
  · fin_cases h <;> rfl
  · fin_cases h <;> rfl

theorem spelling_of_ne_string {l : Lexeme} (h : l.kind ≠ .string) : l.spelling = l.text := if_neg h

/-- **Each lexeme is scanned as itself**, if nothing or a blank follows. -/
theorem Scanned.scans {l : Lexeme} (h : Scanned l) {rest : List Char} (hrest : Spaced rest) :
    Scans (l.spelling.toList ++ rest) [l] rest := by
  cases h with
  | string text => exact passage_quote text rest
  | @number c cs h =>
    have hrun := numberRun_numberRun .whole (c :: cs) hrest
    obtain ⟨ds, hds, hstarts⟩ := h.run
    have hstep := step_number (hstarts rest)
    rw [← List.cons_append, ← hds, hrun] at hstep
    rw [spelling_of_ne_string TokenKind.noConfusion, String.toList_ofList]
    exact .token hstep (.refl rest)
  | @word c cs h =>
    have hkind : (wordLexeme (String.ofList (c :: (nameRun cs).1))).kind ≠ .string := by
      rw [wordLexeme]
      split <;> exact TokenKind.noConfusion
    rw [spelling_of_ne_string hkind, wordLexeme, String.toList_ofList]
    exact .token (step_word h (nameRun_nameRun cs hrest)) (.refl rest)
  | @punctuation c kind h =>
    have hstep : kind ≠ .string ∧ step (c :: rest) = .token kind (String.singleton c) [c] rest := by
      unfold punctuation? at h
      split at h <;> cases h <;> exact ⟨by decide, rfl⟩
    rw [spelling_of_ne_string hstep.1, String.toList_singleton]
    exact .token hstep.2 (.refl rest)
  | @operator text h =>
    rw [spelling_of_ne_string TokenKind.noConfusion]
    exact .token (step_operator h hrest) (.refl rest)

/-! ## Scanning all of them again -/

theorem Scanned.kind_ne_endOfInput {l : Lexeme} (h : Scanned l) : l.kind ≠ .endOfInput := by
  cases h with
  | string _ | number _ | operator _ => exact TokenKind.noConfusion
  | word cs h =>
    rw [wordLexeme]
    split <;> exact TokenKind.noConfusion
  | punctuation h =>
    unfold punctuation? at h
    split at h <;> cases h <;> exact TokenKind.noConfusion

/-- **Lexemes with a blank between each two are scanned as themselves.** -/
theorem scans_intercalate {w : List Lexeme} (h : ∀ l ∈ w, Scanned l) :
    Scans ([' '].intercalate (w.map fun l => l.spelling.toList)) w [] := by
  induction w with
  | nil => exact .refl []
  | cons l w ih =>
    have hl := h l List.mem_cons_self
    have hw := ih fun m hm => h m (List.mem_cons_of_mem _ hm)
    cases w with
    | nil =>
      have hspaced : Spaced [] := nofun
      simpa using hl.scans hspaced
    | cons m w =>
      have hspaced : Spaced (' ' :: [' '].intercalate
          ((m :: w).map fun l => l.spelling.toList)) := by simp [Spaced]
      simpa using (hl.scans hspaced).append (.skip rfl hw)

/-- The tokens up to the end of the input, with a blank between each two. -/
def respell (ts : List Token) : String :=
  " ".intercalate ((ts.filter fun t => t.kind ≠ .endOfInput).map fun t => t.lexeme.spelling)

theorem respell_toList {us : List Token} (h : ∀ l ∈ lexemes us, Scanned l) (stop : Position) :
    (respell (us ++ [Token.closing stop])).toList =
      [' '].intercalate ((lexemes us).map fun l => l.spelling.toList) := by
  have hus : us.filter (fun t => t.kind ≠ .endOfInput) = us := by
    rw [List.filter_eq_self]
    intro t ht
    exact decide_eq_true (h t.lexeme (List.mem_map_of_mem ht)).kind_ne_endOfInput
  have hstop : [Token.closing stop].filter (fun t => t.kind ≠ .endOfInput) = [] := rfl
  rw [respell, List.filter_append, hus, hstop, List.append_nil, String.toList_intercalate, lexemes,
    List.map_map, List.map_map]
  rfl

/-- What a text is cut into consists of lexemes that there are, and of the end of the input. -/
theorem scanned_of_tokensFrom {pos : Position} {cs : List Char} {ts : List Token}
    (h : tokensFrom pos cs = .ok ts) :
    ∃ us stop, ts = us ++ [Token.closing stop] ∧ ∀ l ∈ lexemes us, Scanned l := by
  fun_induction tokensFrom pos cs generalizing ts with
  | case1 pos cs hstep =>
    cases h
    exact ⟨[], pos, rfl, nofun⟩
  | case2 pos cs taken rest hstep hlt ih => exact ih h
  | case3 pos cs kind text taken rest hstep hlt ih =>
    cases hrest : tokensFrom (pos.after taken) rest with
    | error e =>
      rw [hrest] at h
      cases h
    | ok vs =>
      rw [hrest] at h
      cases h
      obtain ⟨us, stop, rfl, hus⟩ := ih hrest
      exact ⟨⟨kind, text, pos⟩ :: us, stop, rfl,
        List.forall_mem_cons.2 ⟨scanned_of_step hstep, hus⟩⟩
  | case4 pos cs fault hstep => cases h

/-- What a text was cut into, or the fault in it, with no positions. -/
def content : Except LexError (List Token) → Except LexFault (List Lexeme)
  | .ok ts => .ok (lexemes ts)
  | .error e => .error e.fault

theorem content_eq_ok_iff {r : Except LexError (List Token)} {w : List Lexeme} :
    content r = .ok w ↔ ∃ ts, r = .ok ts ∧ lexemes ts = w := by
  cases r <;> simp [content]

theorem content_eq_error_iff {r : Except LexError (List Token)} {fault : LexFault} :
    content r = .error fault ↔ ∃ pos, r = .error ⟨fault, pos⟩ := by
  rcases r with ⟨found, pos⟩ | ts <;> simp [content]

theorem content_map_cons (t : Token) (r : Except LexError (List Token)) :
    content (r.map (t :: ·)) = (content r).map (t.lexeme :: ·) := by
  cases r <;> rfl

/-- **Where a text begins does not matter to what is in it.** -/
theorem content_tokensFrom (pos pos' : Position) (cs : List Char) :
    content (tokensFrom pos cs) = content (tokensFrom pos' cs) := by
  fun_induction tokensFrom pos cs generalizing pos' with
  | case1 pos cs hstep =>
    rw [tokensFrom_finished hstep]
    rfl
  | case2 pos cs taken rest hstep hlt ih => rw [tokensFrom_skip hstep, ih]
  | case3 pos cs kind text taken rest hstep hlt ih =>
    rw [tokensFrom_token hstep, content_map_cons, content_map_cons, ih]
    rfl
  | case4 pos cs fault hstep =>
    rw [tokensFrom_fault hstep]
    rfl

/-- **What has been scanned stays in front of what is in the rest**, and a fault in the rest is one in
the whole. -/
theorem Scans.content {cs rest : List Char} {w : List Lexeme} (h : Scans cs w rest)
    (pos pos' : Position) :
    content (tokensFrom pos cs) = (content (tokensFrom pos' rest)).map (w ++ ·) := by
  induction h generalizing pos with
  | refl rest =>
    rw [content_tokensFrom pos pos']
    cases Script.content (tokensFrom pos' rest) <;> rfl
  | skip hstep _ ih => rw [tokensFrom_skip hstep, ih]
  | @token cs taken mid rest w kind text hstep _ ih =>
    rw [tokensFrom_token hstep, content_map_cons, ih]
    cases Script.content (tokensFrom pos' rest) <;> rfl

/-- **Scanning undoes spelling.**  A quoted text and what follows it are the text and the tokens of
what follows; the tokens of a script, put down with blanks between them, are scanned as they were. -/
theorem tokenize_spelled :
    (∀ text rest : String,
      tokenize (quote text ++ rest) =
        (tokensFrom (Position.start.after (quote text).toList) rest.toList).map
          (⟨.string, text, .start⟩ :: ·) ∧
      content (tokenize (quote text ++ rest)) =
        (content (tokenize rest)).map (⟨.string, text⟩ :: ·)) ∧
    ∀ (source : String) (ts : List Token), tokenize source = .ok ts →
      ∃ ts', tokenize (respell ts) = .ok ts' ∧ lexemes ts' = lexemes ts := by
  constructor
  · intro text rest
    have hquote : tokenize (quote text ++ rest) =
        (tokensFrom (Position.start.after (quote text).toList) rest.toList).map
          (⟨.string, text, .start⟩ :: ·) := by
      rw [tokenize, String.toList_append, tokensFrom_token (step_quote text rest.toList)]
    refine ⟨hquote, ?_⟩
    rw [hquote, content_map_cons, tokenize, content_tokensFrom]
    rfl
  · intro source ts h
    obtain ⟨us, stop, rfl, hus⟩ := scanned_of_tokensFrom h
    have hscans := scans_intercalate hus
    rw [← respell_toList hus stop] at hscans
    obtain ⟨vs, stop', hvs, hread⟩ := tokenize_of_scans hscans
    refine ⟨vs ++ [Token.closing stop'], hread, ?_⟩
    rw [lexemes, List.map_append, ← lexemes, hvs, lexemes, lexemes, List.map_append]
    rfl

/-- A script with a comment, a path, comparisons of three signs, numbers that stop early and a text
in double quotes. -/
def crowdedScript : String := "a.b===1.e+/*x*/\"it's\\n\".5"

theorem crowdedScript_respells :
    ∃ ts, tokenize crowdedScript = .ok ts ∧ respell ts = "a.b == 1.e+ 'it\\'s\\n' .5" ∧
      ∃ ts', tokenize (respell ts) = .ok ts' ∧ lexemes ts' = lexemes ts := by
  have htokens : tokenize crowdedScript = .ok
      [⟨.name, "a.b", ⟨1, 1⟩⟩, ⟨.operator, "==", ⟨1, 4⟩⟩, ⟨.number, "1.e+", ⟨1, 7⟩⟩,
        ⟨.string, "it's\n", ⟨1, 16⟩⟩, ⟨.number, ".5", ⟨1, 24⟩⟩, Token.closing ⟨1, 26⟩] := by
    cbv
  exact ⟨_, htokens, by decide, tokenize_spelled.2 crowdedScript _ htokens⟩

end Script
end VisualBlocks

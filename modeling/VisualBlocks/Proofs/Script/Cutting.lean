import VisualBlocks.Proofs.Script.Respelling

/-!
# Where tokens stand

A text is cut into tokens by steps that each take some characters from its front.  Here it is said
without the steps what a text that has been cut looks like.

* `placeBehind`: the place behind some characters, by counting line breaks and the characters after
  the last of them.
* `Filler`: what may stand between tokens: white space, a byte order mark or a comment.  `Spelt`:
  how a token is written.  `Offends`: a fault, and the text that it is found in front of.
* `Cut`: a text made of fillers and tokens, with every token at its place.  It is put together from
  the pieces, so no character is lost and none is used twice.

Positions grow with the text in front of them (`placeBehind_before`), so tokens stand in order.
-/

set_option autoImplicit false

namespace VisualBlocks
namespace Script

/-! ## Places -/

/-- The place behind some characters: the lines that have been ended and the present one, the
characters that stand in it and the next one. -/
def placeBehind (before : List Char) : Position :=
  ⟨before.count '\n' + 1, (before.reverse.takeWhile (· ≠ '\n')).length + 1⟩

/-- The order in which places stand in a text. -/
def Position.Before (p q : Position) : Prop :=
  p.line < q.line ∨ p.line = q.line ∧ p.column < q.column

theorem Position.Before.trans {p q r : Position} (h : p.Before q) (h' : q.Before r) :
    p.Before r := by
  unfold Before at *
  omega

theorem Position.before_next (p : Position) (c : Char) : p.Before (p.next c) := by
  unfold Before next
  split <;> simp

theorem placeBehind_concat (before : List Char) (c : Char) :
    placeBehind (before ++ [c]) = (placeBehind before).next c := by
  by_cases hc : c = '\n'
  · simp [placeBehind, Position.next, hc]
  · simp [placeBehind, Position.next, hc]

/-- **Counting step by step is counting.** -/
theorem placeBehind_append (before cs : List Char) :
    placeBehind (before ++ cs) = (placeBehind before).after cs := by
  induction cs generalizing before with
  | nil => rw [List.append_nil, Position.after_nil]
  | cons c cs ih => rw [Position.after_cons, ← placeBehind_concat, ← ih, List.append_assoc]; rfl

/-- Behind more characters is a later place. -/
theorem placeBehind_before (before : List Char) {cs : List Char} (h : cs ≠ []) :
    (placeBehind before).Before (placeBehind (before ++ cs)) := by
  induction cs generalizing before with
  | nil => exact absurd rfl h
  | cons c cs ih =>
    have hc : (placeBehind before).Before (placeBehind (before ++ [c])) :=
      placeBehind_concat before c ▸ Position.before_next _ c
    rw [← List.singleton_append, ← List.append_assoc]
    by_cases hcs : cs = []
    · rw [hcs, List.append_nil]
      exact hc
    · exact hc.trans (ih _ hcs)

/-! ## Pieces -/

/-- What may stand between tokens, in front of `rest`.  A comment that begins with two slashes ends
before the first line break, any other at the first closing mark. -/
inductive Filler : List Char → List Char → Prop
  | blank {c : Char} (rest : List Char) (h : isSkipped c = true) : Filler [c] rest
  | line {text rest : List Char} (h : '\n' ∉ text) (hrest : ∀ c ∈ rest.head?, c = '\n') :
      Filler ('/' :: '/' :: text) rest
  | block {text : List Char} (rest : List Char) (h : ¬ ['*', '/'] <:+: text ++ ['*']) :
      Filler ('/' :: '*' :: text ++ ['*', '/']) rest

/-- The inside of a string in these quotes, and what it stands for. -/
inductive Quoted (quote : Char) : List Char → List Char → Prop
  | nil : Quoted quote [] []
  | plain {c : Char} {cs vs : List Char} (hquote : c ≠ quote) (hslash : c ≠ '\\')
      (hline : c ≠ '\n') (h : Quoted quote cs vs) : Quoted quote (c :: cs) (c :: vs)
  | escaped (c : Char) {cs vs : List Char} (h : Quoted quote cs vs) :
      Quoted quote ('\\' :: c :: cs) (unescape c :: vs)

/-- The characters that strings are put in. -/
def IsQuote (c : Char) : Prop := c = '"' ∨ c = '\''

/-- How a token is written: a string in quotes, a comparison possibly with one more sign, and
everything else as it is. -/
inductive Spelt : TokenKind → String → List Char → Prop
  | string {quote : Char} {inside value : List Char} (hquote : IsQuote quote)
      (h : Quoted quote inside value) :
      Spelt .string (String.ofList value) (quote :: inside ++ [quote])
  | strict {text : String} (h : text = "==" ∨ text = "!=") :
      Spelt .operator text (text.toList ++ ['='])
  | plain {kind : TokenKind} {word : List Char} (hstring : kind ≠ .string)
      (hend : kind ≠ .endOfInput) (hword : word ≠ []) : Spelt kind (String.ofList word) word

theorem Spelt.ne_nil {kind : TokenKind} {text : String} {word : List Char}
    (h : Spelt kind text word) : word ≠ [] := by
  cases h with
  | string => exact List.cons_ne_nil _ _
  | strict => simp
  | plain _ _ hword => exact hword

/-- A fault in front of a text: a character that no token begins with, a single sign of those that
only stand twice, an opening quote without a closing one, an opening mark without a closing one. -/
inductive Offends : LexFault → List Char → Prop
  | character {c : Char} {cs : List Char} (hskipped : isSkipped c = false) (hquote : ¬ IsQuote c)
      (hnumber : ¬ (c.isDigit = true ∨ c = '.' ∧ cs.head?.any Char.isDigit = true))
      (hname : isNameStart c = false) (hpunctuation : punctuation? c = none)
      (hoperator : isOperatorStart c = false) : Offends (.unexpectedCharacter c) (c :: cs)
  | bitwise {c : Char} {cs : List Char} (hc : c = '&' ∨ c = '|') (h : cs.head? ≠ some c) :
      Offends (.bitwiseOperator c) (c :: cs)
  | string {quote : Char} {cs : List Char} (hquote : IsQuote quote)
      (h : ∀ inside value rest, Quoted quote inside value → cs ≠ inside ++ quote :: rest) :
      Offends .unterminatedString (quote :: cs)
  | comment {cs : List Char} (h : ¬ ['*', '/'] <:+: cs) :
      Offends .unterminatedComment ('/' :: '*' :: cs)

/-! ## Runs -/

/-- A closing mark in front of a text or in it. -/
theorem closing_infix_cons {c : Char} {cs : List Char}
    (hmark : ∀ ds, c = '*' → cs = '/' :: ds → False) (h : ¬ ['*', '/'] <:+: cs) :
    ¬ ['*', '/'] <:+: c :: cs := by
  rw [List.infix_cons_iff]
  rintro (hfront | hinfix)
  · obtain ⟨ds, hds⟩ := hfront
    simp only [List.cons_append, List.nil_append, List.cons.injEq] at hds
    exact hmark ds hds.1.symm hds.2.symm
  · exact h hinfix

/-- A comment goes up to the first closing mark. -/
theorem commentRun?_some {cs taken rest : List Char} (h : commentRun? cs = some (taken, rest)) :
    ∃ text, taken = text ++ ['*', '/'] ∧ ¬ ['*', '/'] <:+: text ++ ['*'] := by
  induction cs using commentRun?.induct generalizing taken with
  | case1 cs =>
    simp only [commentRun?, Option.some.injEq, Prod.mk.injEq] at h
    exact ⟨[], h.1.symm, by decide⟩
  | case2 c cs hne ih =>
    rw [commentRun?] at h
    · obtain ⟨⟨taken, rest⟩, hrun, hkeep⟩ := Option.map_eq_some_iff.1 h
      cases hkeep
      obtain ⟨text, rfl, htext⟩ := ih hrun
      refine ⟨c :: text, rfl, closing_infix_cons (fun ds hc hds => ?_) htext⟩
      -- A mark at the seam of `c` and the rest would have ended the comment there.
      have happend := commentRun?_append hrun
      cases text with
      | nil => cases hds
      | cons d text =>
        cases hds
        exact hne _ hc happend.symm
    · exact hne
  | case3 => cases h

theorem commentRun?_none {cs : List Char} (h : commentRun? cs = none) : ¬ ['*', '/'] <:+: cs := by
  induction cs using commentRun?.induct with
  | case1 cs => rw [commentRun?] at h; cases h
  | case2 c cs hne ih =>
    rw [commentRun?] at h
    · exact closing_infix_cons hne (ih (Option.map_eq_none_iff.1 h))
    · exact hne
  | case3 => decide

/-- A string goes up to its closing quote. -/
theorem stringRun?_some {quote : Char} {cs : List Char} {r : StringRun}
    (h : stringRun? quote cs = some r) :
    ∃ inside, r.taken = inside ++ [quote] ∧ Quoted quote inside r.value := by
  fun_induction stringRun? quote cs generalizing r with
  | case1 => cases h
  | case2 =>
    cases h
    exact ⟨[], rfl, .nil⟩
  | case3 e ds _ ih =>
    obtain ⟨s, hs, rfl⟩ := Option.map_eq_some_iff.1 h
    obtain ⟨inside, htaken, hinside⟩ := ih hs
    exact ⟨_ :: e :: inside, by rw [htaken]; rfl, .escaped e hinside⟩
  | case4 => cases h
  | case5 => cases h
  | case6 c cs hquote hslash hline ih =>
    obtain ⟨s, hs, rfl⟩ := Option.map_eq_some_iff.1 h
    obtain ⟨inside, htaken, hinside⟩ := ih hs
    exact ⟨c :: inside, by rw [htaken]; rfl, .plain hquote hslash hline hinside⟩

/-- A string that is closed is read. -/
theorem Quoted.stringRun? {quote : Char} (hquote : IsQuote quote) {inside value : List Char}
    (h : Quoted quote inside value) (rest : List Char) :
    (stringRun? quote (inside ++ quote :: rest)).isSome = true := by
  have hne : '\\' ≠ quote := by rcases hquote with rfl | rfl <;> decide
  induction h with
  | nil => rw [List.nil_append, Script.stringRun?.eq_def]; simp
  | plain hc hslash hline _ ih =>
    rw [List.cons_append, Script.stringRun?.eq_def]
    dsimp only
    rw [if_neg hc, if_neg hslash, if_neg hline, Option.isSome_map]
    exact ih
  | escaped c _ ih =>
    rw [List.cons_append, List.cons_append, Script.stringRun?.eq_def]
    dsimp only
    rw [if_neg hne, if_pos rfl, Option.isSome_map]
    exact ih

/-- A line goes up to its line break. -/
theorem lineRun_ends (cs : List Char) :
    '\n' ∉ (lineRun cs).1 ∧ ∀ c ∈ (lineRun cs).2.head?, c = '\n' := by
  constructor
  · intro hmem
    exact absurd (List.all_eq_true.1 List.all_takeWhile _ hmem) (by decide)
  · intro c hc
    have hstop := List.head?_dropWhile_not (fun c => decide (c ≠ '\n')) cs
    rw [lineRun, Option.mem_def] at hc
    rw [hc] at hstop
    simpa using hstop

/-! ## One step -/

/-- What a step says of a text is so. -/
def Step.Describes (cs : List Char) : Step → Prop
  | .finished => cs = []
  | .skip taken rest => Filler taken rest
  | .token kind text taken _ => Spelt kind text taken
  | .fault found => Offends found cs

theorem operatorStep_describes (c : Char) (cs : List Char) :
    (operatorStep c cs).Describes (c :: cs) := by
  have hplain (word : List Char) (hword : word ≠ []) : Spelt .operator (String.ofList word) word :=
    .plain (by decide) (by decide) hword
  unfold operatorStep
  split
  · next d rest =>
    split
    · exact hplain _ (by simp)
    split
    · exact hplain _ (by simp)
    split
    · next h =>
      obtain ⟨rfl, hc⟩ := h
      split
      · have hstrict : Spelt .operator (String.ofList [c, '='])
            ((String.ofList [c, '=']).toList ++ ['=']) := by
          simp only [List.contains_eq_mem, List.mem_cons, List.not_mem_nil, or_false,
            decide_eq_true_eq] at hc
          rcases hc with rfl | rfl
          · exact .strict (.inl rfl)
          · exact .strict (.inr rfl)
        rwa [String.toList_ofList] at hstrict
      · exact hplain _ (by simp)
    split
    · next hdouble _ _ hc =>
      refine Offends.bitwise hc fun hd => hdouble ⟨(Option.some.inj hd).symm, ?_⟩
      rcases hc with rfl | rfl <;> decide
    · exact hplain _ (by simp)
  · split
    · next hc => exact Offends.bitwise hc (by simp)
    · exact hplain _ (by simp)

theorem punctuation?_kind {c : Char} {kind : TokenKind} (h : punctuation? c = some kind) :
    kind ≠ .string ∧ kind ≠ .endOfInput := by
  unfold punctuation? at h
  split at h <;> cases h <;> decide

/-- **A step describes what stands at the front of a text.** -/
theorem step_describes (cs : List Char) : (step cs).Describes cs := by
  unfold step
  split
  · exact rfl
  · next c cs =>
    split
    · next h => exact Filler.blank cs h
    next hskipped =>
    split
    · next h =>
      obtain ⟨rfl, hhead⟩ := h
      obtain ⟨ds, rfl⟩ := List.head?_eq_some_iff.1 hhead
      obtain ⟨hline, hrest⟩ := lineRun_ends ds
      exact Filler.line hline hrest
    split
    · next h =>
      obtain ⟨rfl, hhead⟩ := h
      obtain ⟨ds, rfl⟩ := List.head?_eq_some_iff.1 hhead
      rw [List.tail_cons]
      split
      · next hrun =>
        obtain ⟨text, rfl, htext⟩ := commentRun?_some hrun
        exact Filler.block _ htext
      · next hrun => exact Offends.comment (commentRun?_none hrun)
    split
    · next hquote =>
      split
      · next r hrun =>
        obtain ⟨inside, htaken, hinside⟩ := stringRun?_some hrun
        rw [htaken]
        exact Spelt.string hquote hinside
      · next hrun =>
        refine Offends.string hquote fun inside value rest hinside hcs => ?_
        have hsome := hinside.stringRun? hquote rest
        rw [← hcs, hrun] at hsome
        cases hsome
    next hquote =>
    split
    · next hnumber =>
      obtain ⟨ds, hds, -⟩ := NumberStarts.run hnumber
      have hword : (numberRun .whole (c :: cs)).1 ≠ [] := hds ▸ List.cons_ne_nil c ds
      exact Spelt.plain (by decide) (by decide) hword
    next hnumber =>
    split
    · refine Spelt.plain ?_ ?_ (List.cons_ne_nil _ _) <;> split <;> decide
    next hname =>
    split
    · next kind hkind =>
      obtain ⟨hstring, hend⟩ := punctuation?_kind hkind
      exact Spelt.plain hstring hend (List.cons_ne_nil c [])
    · next hpunctuation =>
      split
      · next hc => exact operatorStep_describes c cs
      · next hoperator =>
        exact Offends.character (by simpa using hskipped) hquote hnumber (by simpa using hname)
          hpunctuation (by simpa using hoperator)

/-! ## Whole texts -/

/-- Behind `before`, the text is made of the tokens, each at its place, with fillers around them,
and of what is left behind them. -/
inductive Cut : List Char → List Token → List Char → List Char → Prop
  | stop (before rest : List Char) : Cut before [] rest rest
  | filler {before piece cs rest : List Char} {ts : List Token} (h : Filler piece cs)
      (hrest : Cut (before ++ piece) ts cs rest) : Cut before ts (piece ++ cs) rest
  | token {before word cs rest : List Char} {t : Token} {ts : List Token}
      (hpos : t.pos = placeBehind before) (hword : Spelt t.kind t.text word)
      (hrest : Cut (before ++ word) ts cs rest) : Cut before (t :: ts) (word ++ cs) rest

namespace Cut

variable {before cs rest : List Char} {ts : List Token}

/-- A token stands in front of one of the characters. -/
theorem exists_place (h : Cut before ts cs rest) {t : Token} (ht : t ∈ ts) :
    ∃ ds es, cs = ds ++ es ∧ es ≠ [] ∧ t.pos = placeBehind (before ++ ds) := by
  induction h with
  | stop => cases ht
  | @filler before piece _ _ _ _ _ ih =>
    obtain ⟨ds, es, rfl, hes, hpos⟩ := ih ht
    exact ⟨piece ++ ds, es, (List.append_assoc _ _ _).symm, hes, by rw [hpos, List.append_assoc]⟩
  | @token before word cs _ t' _ hpos hword _ ih =>
    rcases List.mem_cons.1 ht with rfl | ht
    · refine ⟨[], word ++ cs, rfl, ?_, by rw [hpos, List.append_nil]⟩
      exact List.append_ne_nil_of_left_ne_nil hword.ne_nil cs
    · obtain ⟨ds, es, rfl, hes, hpos⟩ := ih ht
      exact ⟨word ++ ds, es, (List.append_assoc _ _ _).symm, hes, by rw [hpos, List.append_assoc]⟩

/-- The tokens stand in order, and the end of the text behind them. -/
theorem ordered (h : Cut before ts cs rest) :
    (ts ++ [Token.closing (placeBehind (before ++ cs))]).Pairwise
      fun t u => t.pos.Before u.pos := by
  have hend : ∀ t ∈ ts, t.pos.Before (placeBehind (before ++ cs)) := by
    intro t ht
    obtain ⟨ds, es, rfl, hes, hpos⟩ := h.exists_place ht
    rw [hpos, ← List.append_assoc]
    exact placeBehind_before _ hes
  rw [List.pairwise_append]
  refine ⟨?_, List.pairwise_singleton _ _, fun t ht u hu => ?_⟩
  · clear hend
    induction h with
    | stop => exact .nil
    | filler _ _ ih => exact ih
    | @token before word cs rest t ts hpos hword hrest ih =>
      -- Between a token and a later one stands at least its own spelling.
      refine .cons (fun u hu => ?_) ih
      obtain ⟨ds, es, -, -, hplace⟩ := hrest.exists_place hu
      rw [hpos, hplace, List.append_assoc]
      exact placeBehind_before _ (List.append_ne_nil_of_left_ne_nil hword.ne_nil ds)
  · rw [List.mem_singleton.1 hu]
    exact hend t ht

end Cut

/-- **Tokens stand where counting finds them.**  A text behind `before` that is cut into tokens is
made of them and of fillers, and the end of the input stands behind it; one that is not is made of
tokens and fillers up to a place where the fault is found. -/
theorem tokensFrom_cut (before cs : List Char) :
    (∀ ts, tokensFrom (placeBehind before) cs = .ok ts →
      ∃ us, ts = us ++ [Token.closing (placeBehind (before ++ cs))] ∧ Cut before us cs []) ∧
    ∀ e, tokensFrom (placeBehind before) cs = .error e →
      ∃ us taken rest, cs = taken ++ rest ∧ Cut before us cs rest ∧
        e.pos = placeBehind (before ++ taken) ∧ Offends e.fault rest := by
  generalize hpos : placeBehind before = pos
  fun_induction tokensFrom pos cs generalizing before with
  | case1 pos cs hstep =>
    have hcs := step_describes cs
    rw [hstep] at hcs
    subst hpos hcs
    refine ⟨fun ts h => ?_, fun _ h => by cases h⟩
    cases h
    exact ⟨[], by rw [List.append_nil]; rfl, .stop before []⟩
  | case2 pos cs taken mid hstep hlt ih =>
    have hfiller := step_describes cs
    have hparts : (step cs).parts? = some (taken, mid) := by rw [hstep]; rfl
    obtain ⟨rfl, -⟩ := step_append hparts
    rw [hstep] at hfiller
    obtain ⟨hok, herror⟩ := ih (before ++ taken) (by rw [placeBehind_append, hpos])
    refine ⟨fun ts h => ?_, fun e h => ?_⟩
    · obtain ⟨us, rfl, hus⟩ := hok ts h
      exact ⟨us, by rw [List.append_assoc], .filler hfiller hus⟩
    · obtain ⟨us, ds, rest, rfl, hus, hplace, hoffends⟩ := herror e h
      exact ⟨us, taken ++ ds, rest, (List.append_assoc _ _ _).symm, .filler hfiller hus,
        by rw [hplace, List.append_assoc], hoffends⟩
  | case3 pos cs kind text word mid hstep hlt ih =>
    have hword := step_describes cs
    have hparts : (step cs).parts? = some (word, mid) := by rw [hstep]; rfl
    obtain ⟨rfl, -⟩ := step_append hparts
    rw [hstep] at hword
    obtain ⟨hok, herror⟩ := ih (before ++ word) (by rw [placeBehind_append, hpos])
    subst hpos
    cases hmid : tokensFrom ((placeBehind before).after word) mid with
    | ok us =>
      refine ⟨fun ts h => ?_, fun _ h => by cases h⟩
      cases h
      obtain ⟨us, rfl, hus⟩ := hok us hmid
      exact ⟨⟨kind, text, placeBehind before⟩ :: us, by rw [List.append_assoc]; rfl,
        .token rfl hword hus⟩
    | error e =>
      refine ⟨fun _ h => (by cases h), fun e' h => ?_⟩
      cases h
      obtain ⟨us, ds, rest, rfl, hus, hplace, hoffends⟩ := herror e hmid
      exact ⟨⟨kind, text, placeBehind before⟩ :: us, word ++ ds, rest,
        (List.append_assoc _ _ _).symm, .token rfl hword hus, by rw [hplace, List.append_assoc],
        hoffends⟩
  | case4 pos cs fault hstep =>
    have hoffends := step_describes cs
    rw [hstep] at hoffends
    refine ⟨fun _ h => (by cases h), fun e h => ?_⟩
    cases h
    exact ⟨[], [], cs, rfl, .stop before cs, by rw [List.append_nil, hpos], hoffends⟩

end Script
end VisualBlocks
